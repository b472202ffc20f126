import Mathlib.Data.List.Infix
import Mathlib.Data.List.Induction
import PolicyTree.Collection
import PolicyTree.Proofs.Tree.Reading

namespace PolicyTree

namespace Store

variable {s : Store} {t : NodeTypes} {ns ms : List String} {id : NodeId} {name : String}

-- Of the nodes on a way, the last one that is there.
structure Locates (s : Store) (ns ms : List String) (id : NodeId) : Prop where
  onWay   : ms <+: ns
  stands  : s.Stands ms id
  closest : ∀ {ks : List String} {x : NodeId}, ks <+: ns → s.Stands ks x → ks.length ≤ ms.length

theorem Locates.of_stands (hs : s.Stands ns id) : Locates s ns ns id :=
  ⟨List.prefix_refl _, hs, fun hk _ => hk.length_le⟩

theorem Locates.concat_iff (hn : ∀ x, ¬s.Stands (ns ++ [name]) x) :
    Locates s (ns ++ [name]) ms id ↔ Locates s ns ms id := by
  constructor
  case mp =>
    intro hl
    refine ⟨?_, hl.stands, fun hk hs => hl.closest (hk.trans (List.prefix_append ..)) hs⟩
    rcases List.prefix_concat_iff.1 hl.onWay with rfl | hm
    · exact absurd hl.stands (hn id)
    · exact hm
  case mpr =>
    intro hl
    refine ⟨hl.onWay.trans (List.prefix_append ..), hl.stands, fun {ks x} hk hs => ?_⟩
    rcases List.prefix_concat_iff.1 hk with rfl | hk
    · exact absurd hs (hn x)
    · exact hl.closest hk hs

theorem exists_locates (s : Store) (ns : List String) : ∃ ms id, Locates s ns ms id := by
  induction ns using List.reverseRecOn
  case nil => exact ⟨[], s.root, .of_stands .root⟩
  case append_singleton ns n hi =>
    by_cases hs : ∃ x, s.Stands (ns ++ [n]) x
    case pos =>
      have ⟨x, hx⟩ := hs
      exact ⟨_, x, .of_stands hx⟩
    case neg =>
      have ⟨ms, id, hl⟩ := hi
      exact ⟨ms, id, (Locates.concat_iff fun x hx => hs ⟨x, hx⟩).2 hl⟩

namespace WellFormed

variable (h : s.WellFormed)

include h

theorem locates_unique {ms' : List String} {id' : NodeId} (hl : Locates s ns ms id)
    (hl' : Locates s ns ms' id') : ms = ms' ∧ id = id' := by
  have hm := (hl.closest hl'.onWay hl'.stands).antisymm (hl'.closest hl.onWay hl.stands)
  have : ms = ms' := List.IsPrefix.eq_of_length
    (List.prefix_of_prefix_length_le hl.onWay hl'.onWay hm.ge) hm.symm
  subst this
  exact ⟨rfl, h.stands_inj hl.stands hl'.stands⟩

theorem locate_eq (hv : ∀ n ∈ ns, Path.IsSegment n) (hl : Locates s ns ms id) :
    locate (s.view t) (Path.ofNames ns) = .ok ⟨id, Path.ofNames ms⟩ := by
  have go (path : String) : locate.go (s.view t) path (ns.inits.reverse.map Path.ofNames) =
      .ok ⟨id, Path.ofNames ms⟩ := by
    induction ns using List.reverseRecOn
    case nil =>
      obtain rfl := List.prefix_nil.1 hl.onWay
      have ⟨found, hr, hf⟩ := h.view_resolve (t := t) hv
      obtain rfl := (hf ⟨id, Path.ofNames []⟩).2 ⟨hl.stands, rfl⟩
      show locate.go _ _ [Path.ofNames []] = _
      rw [locate.go, hr]
      rfl
    case append_singleton ns n hi =>
      have ⟨found, hr, hf⟩ := h.view_resolve (t := t) hv
      rw [Path.inits_concat, List.reverse_append, List.reverse_singleton, List.singleton_append,
        List.map_cons, locate.go, hr]
      cases found
      case some o =>
        have ⟨hs, hp⟩ := (hf o).1 rfl
        obtain ⟨rfl, rfl⟩ := h.locates_unique hl (.of_stands hs)
        rw [← hp]
        rfl
      case none =>
        have hn (x : NodeId) : ¬s.Stands (ns ++ [n]) x := fun hs =>
          nomatch (hf ⟨x, _⟩).2 ⟨hs, rfl⟩
        exact hi (fun m hm => hv m (by simp [hm])) ((Locates.concat_iff hn).1 hl)
  rw [locate, Path.upward_ofNames hv]
  exact go _

end WellFormed

theorem locate_invalid {path : String} {e : Path.Error} (he : Path.validate path = .error e) :
    locate (s.view t) path = .error (.tree (.invalidPath e)) := by
  have ⟨above, hu⟩ : ∃ above, Path.upward path = path :: above := by
    unfold Path.upward
    cases path.length <;> exact ⟨_, rfl⟩
  have hr : (s.view t).resolve path = .error (.invalidPath e) := by
    show (do
      let found ← s.resolve path
      return found.bind s.handle?) = _
    rw [resolve, he]
    rfl
  rw [locate, hu, locate.go, hr]
  rfl

end Store

end PolicyTree
