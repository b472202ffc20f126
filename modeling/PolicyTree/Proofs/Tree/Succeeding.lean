import Mathlib.Tactic.Common
import PolicyTree.Proofs.Tree.Working

namespace PolicyTree

namespace Store

variable {s : Store} {id p : NodeId} {n : Node} {name type : String}

theorem addNode_succeeds (hv : Path.validateName name = .ok ()) (hp : s.nodes[p]? = some n)
    (free : s.child? p name = none) : ∃ s', s.addNode id p name type = .ok s' := by
  simp [addNode, hv, hp, free]

-- The parent of a node is not below it.
theorem removeNode_succeeds (h : s.WellFormed) (hn : s.nodes[id]? = some n)
    (hp : n.parent = some p) : ∃ s', s.removeNode id = .ok s' := by
  obtain ⟨pn, hpn, _⟩ := h.listed hn hp
  have stays : ¬s.isWithin id p := h.not_isWithin_parent hn hp
  simp [removeNode, hn, hp, getElem?_without, stays, hpn]

theorem addMixin_succeeds {mixin : String} (hn : s.nodes[id]? = some n) :
    ∃ s', s.addMixin id mixin = .ok s' := by
  by_cases hm : mixin ∈ n.mixins <;> simp [addMixin, hn, hm]

theorem setProperty_succeeds {value : Value} (h : IsPropertyName name)
    (hn : s.nodes[id]? = some n) : ∃ s', s.setProperty id name value = .ok s' := by
  simp [setProperty, h.valid, h.not_mixin, hn]

theorem isPropertyName_of_setProperty {s' : Store} {value : Value}
    (h : s.setProperty id name value = .ok s') : IsPropertyName name := by
  unfold setProperty at h
  simp only [bind_eq_ok_iff, liftM_path_eq_ok_iff] at h
  obtain ⟨_, valid, h⟩ := h
  split at h
  case isTrue      => simp at h
  case isFalse hm => exact ⟨valid, hm⟩

end Store

def Desk.store (saved : Saved) (desk : Desk) : Store := (SessionM.copy saved desk.session).store

-- The tree of the session is well-formed, even where it may not be saved any more, and none of its
-- nodes has an id that is still to be handed out.
structure Desk.Orderly (saved : Saved) (desk : Desk) : Prop where
  wellFormed : (desk.store saved).WellFormed
  below      : (desk.store saved).Below desk.nextId

-- An orderly session that does not misbehave, with something to be said of its tree.
structure Desk.Has (saved : Saved) (K : Store → Prop) (desk : Desk) : Prop where
  orderly : desk.Orderly saved
  faults  : desk.session.faults = .empty
  tree    : K (desk.store saved)

namespace Desk

variable {saved : Saved} {desk desk' : Desk} {K : Store → Prop}

theorem store_eq : desk.session.store saved = desk.store saved := by
  unfold Session.store store SessionM.copy
  cases desk.session.working <;> rfl

theorem Has.view (h : desk.Has saved K) :
    desk.session.view saved = (desk.store saved).view saved.types := by
  rw [Session.view, h.faults, TreeView.withFaults_empty, store_eq]

theorem Orderly.fresh (h : desk.Orderly saved) : (desk.store saved).nodes[desk.nextId]? = none :=
  Std.ExtTreeMap.getElem?_eq_none fun hid => Nat.lt_irrefl _ (h.below _ hid)

theorem Orderly.turn (h : desk.Orderly saved) (ht : desk.Turn saved desk') :
    desk'.Orderly saved := by
  have next : desk.nextId.value ≤ desk.nextId.next.value := Nat.le_succ _
  cases ht
  case take => exact ⟨h.wellFormed, h.below.mono next⟩
  case copy => exact ⟨h.wellFormed, h.below⟩
  case edit s fresh hw old => exact ⟨h.wellFormed.written hw, fun id hid => h.below id (old id hid)⟩
  case add s p name type ha =>
    have added := ha h.fresh
    refine ⟨h.wellFormed.added added, fun id hid => ?_⟩
    rcases added.mem hid with hid | rfl
    · exact Nat.lt_succ_of_lt (h.below id hid)
    · exact Nat.lt_succ_self _

theorem Orderly.turns (h : desk.Orderly saved) (ht : desk.Turns saved desk') :
    desk'.Orderly saved := by
  induction ht
  case refl      => exact h
  case tail t hi => exact hi.turn t

-- A node that was not there has an id that was still to be handed out.
theorem Orderly.mem_of_turn {x : NodeId} (h : desk.Orderly saved) (ht : desk.Turn saved desk')
    (hx : x ∈ (desk'.store saved).nodes) (hlt : x.value < desk.nextId.value) :
    x ∈ (desk.store saved).nodes := by
  cases ht
  case take     => exact hx
  case copy     => exact hx
  case edit old => exact old x hx
  case add ha =>
    refine ((ha h.fresh).mem hx).resolve_right ?_
    rintro rfl
    exact Nat.lt_irrefl _ hlt

-- What work keeps of the tree stays where it was.
theorem Orderly.follows (h : desk.Orderly saved) (ht : desk.Turns saved desk') :
    (desk.store saved).Follows (desk'.store saved) := by
  induction ht
  case refl => exact .refl
  case tail mid desk' ht t hi =>
    have between := h.turns ht
    have next : desk.nextId.value ≤ mid.nextId.value := Desk.Turns.nextId_le ht
    have written {s : Store} {fresh : NodeId} (hw : Store.Written (mid.store saved) s fresh)
        (hs : desk'.store saved = s) : (desk.store saved).Follows (desk'.store saved) :=
      .trans h.wellFormed (between.turn t).wellFormed hi (hs ▸ .written between.wellFormed hw)
        fun x hx hx' => between.mem_of_turn t hx' (Nat.lt_of_lt_of_le (h.below x hx) next)
    cases t
    case take      => exact hi
    case copy      => exact hi
    case edit hw _ => exact written hw rfl
    case add ha    => exact written (.added (ha between.fresh)) rfl

end Desk

namespace SessionM

variable {α β ε : Type} {saved : Saved} {desk : Desk} {K K' : Store → Prop} {E : Desk → Prop}
  {node parent : NodeHandle} {name type : String}

theorem run'_write_of_ok {call : Call} {change : Store → Except TreeError (α × Store)} {a : α}
    {s : Store} (hf : desk.session.faults = .empty) (h : change (desk.store saved) = .ok (a, s)) :
    (write call change).run' saved desk = (.ok a, { desk with
      session.working := some { copy saved desk.session with store := s } }) := by
  have checked : desk.session.faults.check call = .ok () := by
    simp [hf]
  have changed : change (copy saved desk.session).store = .ok (a, s) := h
  rw [run'_write, checked, changed]

namespace Ensures

-- Work that fails nowhere.

theorem has_ask {question : TreeView → Except ε α} {Q : α → Store → Prop}
    (h : ∀ s, s.WellFormed → K s → ∃ a, question (s.view saved.types) = .ok a ∧ Q a s) :
    Ensures saved (Desk.Has saved K) (SessionM.ask question) (fun a => Desk.Has saved (Q a))
      E := by
  intro desk hd
  have ⟨a, ha, hq⟩ := h _ hd.orderly.wellFormed hd.tree
  rw [run'_ask, hd.view, ha]
  exact ⟨hd.orderly, hd.faults, hq⟩

-- Composed work keeps a session orderly, so that it is left to say what it makes of the tree.
theorem has_of_run {work : SessionM ε α} {Q : α → Store → Prop} (hw : Composed work)
    (h : ∀ desk, desk.Has saved K → ∃ a desk', work.run' saved desk = (.ok a, desk') ∧
      desk'.session.faults = .empty ∧ Q a (desk'.store saved)) :
    Ensures saved (Desk.Has saved K) work (fun a => Desk.Has saved (Q a)) E := by
  intro desk hd
  have turns : desk.Turns saved _ := hw.turns
  have ⟨a, desk', hr, faults, hq⟩ := h desk hd
  rw [hr] at turns ⊢
  exact ⟨hd.orderly.turns turns, faults, hq⟩

theorem has_write {call : Call} {change : Store → Except TreeError (α × Store)}
    {Q : α → Store → Prop} (hw : Composed (SessionM.write call change))
    (h : ∀ s, s.WellFormed → K s → ∃ a s', change s = .ok (a, s') ∧ Q a s') :
    Ensures saved (Desk.Has saved K) (SessionM.write call change) (fun a => Desk.Has saved (Q a))
      E := by
  refine has_of_run hw fun desk hd => ?_
  have ⟨a, s, hs, hq⟩ := h _ hd.orderly.wellFormed hd.tree
  exact ⟨a, _, run'_write_of_ok hd.faults hs, hd.faults, hq⟩

theorem has_addMixin {mixin : String}
    (here : ∀ s, s.WellFormed → K s → ∃ n, s.nodes[node.id]? = some n)
    (h : ∀ s s', s.WellFormed → K s → Store.Edited s s' node.id (fun n =>
      { n with mixins := if mixin ∈ n.mixins then n.mixins else n.mixins ++ [mixin] }) → K' s') :
    Ensures saved (Desk.Has saved K) (addMixin node mixin) (fun _ => Desk.Has saved K')
      E := by
  refine has_write (.addMixin ..) fun s wf hs => ?_
  have ⟨n, hn⟩ := here s wf hs
  have ⟨s', hs'⟩ : ∃ s', s.addMixin node.id mixin = .ok s' := Store.addMixin_succeeds hn
  exact ⟨(), s', by simp [hs'], h s s' wf hs (Store.edited_of_addMixin hs')⟩

-- What is written may not be a property; nothing else can go wrong.
theorem has_setProperty {value : Value} (hE : ¬Store.IsPropertyName name → ∀ d, E d)
    (here : ∀ s, s.WellFormed → K s → ∃ n, s.nodes[node.id]? = some n)
    (h : ∀ s s', s.WellFormed → K s → Store.Edited s s' node.id
      (fun n => { n with properties := n.properties.insert name value }) → K' s') :
    Ensures saved (Desk.Has saved K) (setProperty node name value) (fun _ => Desk.Has saved K')
      E := by
  by_cases hname : Store.IsPropertyName name
  case neg =>
    refine .write (fun d _ a s hs => ?_) fun d _ => ⟨hE hname _, hE hname _⟩
    simp only [bind_eq_ok_iff, pure_eq_ok_iff] at hs
    obtain ⟨s, hs, _⟩ := hs
    exact absurd (Store.isPropertyName_of_setProperty hs) hname
  case pos =>
    refine has_write (.setProperty ..) fun s wf hs => ?_
    obtain ⟨n, hn⟩ := here s wf hs
    obtain ⟨s', hs'⟩ : ∃ s', s.setProperty node.id name value = .ok s' :=
      Store.setProperty_succeeds hname hn
    exact ⟨(), s', by simp [hs'], h s s' wf hs (Store.edited_of_setProperty hs')⟩

theorem has_removeNode
    (here : ∀ s, s.WellFormed → K s → ∃ n p, s.nodes[node.id]? = some n ∧ n.parent = some p)
    (h : ∀ s s' p, s.WellFormed → K s → Store.Removed s s' node.id p → K' s') :
    Ensures saved (Desk.Has saved K) (removeNode node) (fun _ => Desk.Has saved K')
      E := by
  refine has_write (.removeNode _) fun s wf hs => ?_
  have ⟨n, _, hn, hp⟩ := here s wf hs
  have ⟨s', hs'⟩ := Store.removeNode_succeeds wf hn hp
  have ⟨p, removed⟩ := Store.removed_of_removeNode hs'
  exact ⟨(), s', by simp [hs'], h s s' p wf hs removed⟩

theorem has_addNode {Q : NodeHandle → Store → Prop} (valid : Path.validateName name = .ok ())
    (free : ∀ s, s.WellFormed → K s →
      (∃ n, s.nodes[parent.id]? = some n) ∧ s.child? parent.id name = none)
    (h : ∀ s s' node, s.WellFormed → K s → Store.Added s s' node.id parent.id name type →
      Q node s') :
    Ensures saved (Desk.Has saved K) (addNode parent name type)
      (fun node => Desk.Has saved (Q node)) E := by
  refine has_of_run (.addNode ..) fun desk hd => ?_
  have wf := hd.orderly.wellFormed
  have ⟨⟨n, hn⟩, hfree⟩ := free _ wf hd.tree
  have ⟨s, hs⟩ : ∃ s, (desk.store saved).addNode desk.nextId parent.id name type = .ok s :=
    Store.addNode_succeeds valid hn hfree
  have added := Store.added_of_addNode hd.orderly.fresh hs
  have new : s.nodes[desk.nextId]? = some (.new name (some parent.id) type) := by
    simp [added.nodes]
  have ⟨ns, stands⟩ := (wf.added added).stands new
  have handle := (wf.added added).getHandle_eq stands
  have taken : (addNode parent name type).run' saved desk = (SessionM.write .addNode fun s => do
      let s ← s.addNode desk.nextId parent.id name type
      return (← s.getHandle desk.nextId, s)).run' saved
        { desk with nextId := desk.nextId.next } := by
    show (SessionM.takeId >>= fun _ => SessionM.write _ _).run' saved desk = _
    rw [run'_bind]
    rfl
  refine ⟨⟨desk.nextId, Path.ofNames ns⟩, _, taken.trans (run'_write_of_ok (s := s) hd.faults ?_),
    hd.faults, h _ s ⟨desk.nextId, _⟩ wf hd.tree added⟩
  have hs : (Desk.store saved { desk with nextId := desk.nextId.next }).addNode desk.nextId
    parent.id name type = .ok s := hs
  simp [hs, handle]

-- Work on one thing after another, of which those that are done are told from the rest.
theorem forM_done {P : List β → Desk → Prop} {E : Desk → Prop} {f : β → SessionM ε PUnit}
    {l : List β} (h : ∀ done b rest, done ++ b :: rest = l →
      Ensures saved (P done) (f b) (fun _ => P (done ++ [b])) E) :
    Ensures saved (P []) (l.forM f) (fun _ => P l) E := by
  have go (done rest : List β) (hl : done ++ rest = l) :
      Ensures saved (P done) (rest.forM f) (fun _ => P l) E := by
    induction rest generalizing done
    case nil => exact List.append_nil done ▸ hl ▸ pure fun _ => id
    case cons b rest hi =>
      show Ensures saved _ (f b >>= fun _ => rest.forM f) _ E
      exact (h done b rest hl).bind fun _ => hi (done ++ [b]) (by simpa using hl)
  exact go [] l rfl

end Ensures

end SessionM

end PolicyTree
