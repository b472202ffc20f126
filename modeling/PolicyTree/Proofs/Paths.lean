import Mathlib.Data.List.Infix
import Mathlib.Data.List.Induction
import Mathlib.Tactic.Common
import PolicyTree.Path

namespace PolicyTree.Path

structure IsSegment (name : String) : Prop where
  ne_empty : name ≠ ""
  no_slash : '/' ∉ name.toList

-- What a path that is not the root is written with.
def trail (ns : List String) : List Char := ns.flatMap fun n => '/' :: n.toList

-- The path with the given names on the way from the root.
def ofNames : List String → String
  | [] => root
  | ns => String.ofList (trail ns)

variable {n : String} {ns ms : List String}

theorem IsSegment.toList_ne_nil (h : IsSegment n) : n.toList ≠ [] := by
  simpa using h.ne_empty

theorem isSegment_of_validateName (h : validateName n = .ok ()) : IsSegment n := by
  unfold validateName at h
  split at h
  case isTrue => cases h
  case isFalse hn => exact ⟨by tauto, by tauto⟩

@[simp] theorem trail_nil : trail [] = [] := rfl

@[simp] theorem trail_cons : trail (n :: ns) = '/' :: n.toList ++ trail ns := by
  simp [trail]

@[simp] theorem trail_append : trail (ns ++ ms) = trail ns ++ trail ms := by
  simp [trail]

@[simp] theorem ofNames_nil : ofNames [] = root := rfl

theorem toList_root : root.toList = ['/'] := by
  decide

theorem toList_ofNames (h : ns ≠ []) : (ofNames ns).toList = trail ns := by
  cases ns
  case nil  => contradiction
  case cons => simp [ofNames]

theorem trail_eq_nil_iff : trail ns = [] ↔ ns = [] := by
  cases ns <;> simp

theorem trail_ne_root (h : ∀ n ∈ ns, IsSegment n) : trail ns ≠ ['/'] := by
  cases ns
  case nil => simp
  case cons n ns =>
    have := (h n (by simp)).toList_ne_nil
    simp [this]

theorem ofNames_eq_root_iff (h : ∀ n ∈ ns, IsSegment n) : ofNames ns = root ↔ ns = [] := by
  constructor
  case mpr => rintro rfl; rfl
  case mp =>
    intro he
    by_contra hn
    exact trail_ne_root h (toList_ofNames hn ▸ toList_root ▸ congrArg String.toList he)

theorem intercalate_eq_ofNames : "/" ++ "/".intercalate ns = ofNames ns := by
  apply String.toList_injective
  cases ns
  case nil => decide
  case cons n ns =>
    have glue : ['/'].intercalate ((n :: ns).map String.toList) = n.toList ++ trail ns := by
      induction ns generalizing n <;> simp_all [List.intercalate]
    rw [String.toList_append, String.toList_intercalate, toList_ofNames (by simp), trail_cons]
    exact congrArg ('/' :: ·) glue

-- What the functions on paths do to the names.

theorem splitLast_append {before after : List Char} (h : '/' ∉ after) :
    splitLast (before ++ '/' :: after) = some (before, after) := by
  have none {cs : List Char} (h : '/' ∉ cs) : splitLast cs = none := by
    induction cs
    case nil => rfl
    case cons c cs hi =>
      simp only [List.mem_cons, not_or] at h
      simp [splitLast, hi h.2, Ne.symm h.1]
  induction before
  case nil => simp [splitLast, none h]
  case cons c cs hi => simp [splitLast, hi]

theorem splitLast_ofNames (h : IsSegment n) :
    splitLast (ofNames (ns ++ [n])).toList = some (trail ns, n.toList) := by
  rw [toList_ofNames (by simp), trail_append, trail_cons, trail_nil, List.append_nil]
  exact splitLast_append h.no_slash

theorem parent_ofNames (h : ∀ m ∈ ns ++ [n], IsSegment m) :
    parent (ofNames (ns ++ [n])) = some (ofNames ns) := by
  have hr : ofNames (ns ++ [n]) ≠ root := by simp [ofNames_eq_root_iff h]
  rw [parent, if_neg hr, splitLast_ofNames (h n (by simp))]
  cases ns
  case nil  => rfl
  case cons => simp [ofNames]

@[simp] theorem parent_root : parent root = none := by
  simp [parent]

theorem name_ofNames (h : IsSegment n) : name (ofNames (ns ++ [n])) = n := by
  simp [name, splitLast_ofNames h]

theorem join_ofNames (h : ∀ m ∈ ns, IsSegment m) :
    join (ofNames ns) n = ofNames (ns ++ [n]) := by
  apply String.toList_injective
  rw [toList_ofNames (by simp), join]
  split
  case isTrue hr => simp [(ofNames_eq_root_iff h).1 hr]
  case isFalse hr =>
    have hn : ns ≠ [] := mt (ofNames_eq_root_iff h).2 hr
    simp [toList_ofNames hn]

theorem ancestor_ofNames (h : ∀ n ∈ ns ++ ms, IsSegment n) :
    ancestor (ofNames (ns ++ ms)) ms.length = some (ofNames ns) := by
  induction ms using List.reverseRecOn
  case nil => simp [ancestor]
  case append_singleton ms m hi =>
    rw [← List.append_assoc] at h ⊢
    rw [List.length_append, List.length_singleton, ancestor, parent_ofNames h]
    exact hi fun n hn => h n (by simp at hn ⊢; tauto)

theorem ancestor_ofNames_eq_some_iff {k : Nat} {path : String} (h : ∀ n ∈ ns, IsSegment n) :
    ancestor (ofNames ns) k = some path ↔
      ∃ above below, ns = above ++ below ∧ below.length = k ∧ ofNames above = path := by
  constructor
  case mpr =>
    rintro ⟨above, below, rfl, rfl, rfl⟩
    exact ancestor_ofNames h
  case mp =>
    intro ha
    induction k generalizing ns
    case zero => exact ⟨ns, [], by simp, rfl, Option.some_inj.1 ha⟩
    case succ k hi =>
      rw [ancestor] at ha
      rcases List.eq_nil_or_concat ns with rfl | ⟨ns, n, rfl⟩
      · exact nomatch ha
      · rw [List.concat_eq_append, parent_ofNames (by simpa using h)] at ha
        obtain ⟨above, below, rfl, hk, rfl⟩ := hi (fun m hm => h m (by simp [hm])) ha
        exact ⟨above, below ++ [n], by simp, by simp [hk], rfl⟩

theorem ancestor_concat_eq_some_iff {k : Nat} {path : String} (h : ∀ m ∈ ns ++ [n], IsSegment m) :
    ancestor (ofNames (ns ++ [n])) (k + 1) = some path ↔
      ∃ above below, ns = above ++ below ∧ below.length = k ∧ ofNames above = path := by
  rw [ancestor, parent_ofNames h]
  exact ancestor_ofNames_eq_some_iff fun m hm => h m (List.mem_append_left _ hm)

theorem inits_concat : (ns ++ [n]).inits = ns.inits ++ [ns ++ [n]] := by
  simp [List.inits_append]

theorem nodup_inits : ns.inits.Nodup := by
  induction ns
  case nil => simp
  case cons n ns hi =>
    rw [List.inits_cons]
    exact List.nodup_cons.2
      ⟨by simp, List.Pairwise.map _ (fun _ _ hne he => hne (List.cons.inj he).2) hi⟩

theorem upward_ofNames (h : ∀ n ∈ ns, IsSegment n) :
    upward (ofNames ns) = ns.inits.reverse.map ofNames := by
  have go (k : Nat) (hk : ns.length ≤ k) :
      upward.go k (ofNames ns) = ns.inits.reverse.map ofNames := by
    induction ns using List.reverseRecOn generalizing k
    case nil => cases k <;> simp [upward.go]
    case append_singleton ns n hi =>
      cases k
      case zero => simp at hk
      case succ k =>
        have := hi (fun n hn => h n (by simp [hn])) k (by simpa using hk)
        simp [upward.go, parent_ofNames h, this]
  apply go
  rw [← String.length_toList]
  cases ns
  case nil => simp
  case cons n ns =>
    have length (ns : List String) : ns.length ≤ (trail ns).length := by
      induction ns
      case nil => simp
      case cons n ns hi =>
        simp only [trail_cons, List.length_append, List.length_cons]
        omega
    rw [toList_ofNames (by simp)]
    exact length _

theorem pieces_trail (h : ∀ m ∈ n :: ns, IsSegment m) :
    segments (n.toList ++ trail ns) = (n :: ns).map String.toList := by
  induction ns generalizing n
  case nil =>
    simp [segments, Text.pieces, Text.cut_of_not_mem (h n (by simp)).no_slash]
  case cons m ns hi =>
    have := hi (n := m) fun k hk => h k (List.mem_cons_of_mem n hk)
    rw [segments] at this
    rw [trail_cons, List.cons_append, segments, Text.pieces,
      Text.cut_append_sep _ (h n (by simp)).no_slash]
    simp [this]

theorem depth_ofNames (h : ∀ n ∈ ns, IsSegment n) :
    depth (ofNames ns) = ns.length := by
  have slashes (ns : List String) (h : ∀ n ∈ ns, IsSegment n) :
      (trail ns).count '/' = ns.length := by
    induction ns
    case nil => rfl
    case cons n ns hi =>
      have := hi fun m hm => h m (by simp [hm])
      simp [this, List.count_eq_zero.2 (h n (by simp)).no_slash]
  unfold depth
  split
  case isTrue hr  => simp [(ofNames_eq_root_iff h).1 hr]
  case isFalse hr => rw [toList_ofNames (mt (ofNames_eq_root_iff h).2 hr), slashes ns h]

theorem names_ofNames (h : ∀ n ∈ ns, IsSegment n) (hn : ns ≠ []) : names (ofNames ns) = ns := by
  cases ns
  case nil => contradiction
  case cons n ns =>
    have : String.ofList ∘ String.toList = id := funext fun _ => String.ofList_toList
    rw [names, toList_ofNames hn, trail_cons, List.cons_append, List.tail_cons, pieces_trail h,
      List.map_map, this, List.map_id]

theorem ofNames_injective (h : ∀ n ∈ ns, IsSegment n) (hm : ∀ m ∈ ms, IsSegment m)
    (he : ofNames ns = ofNames ms) : ns = ms := by
  by_cases hn : ns = []
  case pos =>
    subst hn
    exact ((ofNames_eq_root_iff hm).1 he.symm).symm
  case neg =>
    have : ms ≠ [] := fun hc => hn <| (ofNames_eq_root_iff h).1 <| he.trans (by simp [hc])
    rw [← names_ofNames h hn, he, names_ofNames hm this]

-- A name ends where the next slash stands.
theorem fst_cut_of_head {cs : List Char} (h : IsSegment n) (hcs : ∀ c ∈ cs.head?, c = '/') :
    (Text.cut '/' (n.toList ++ cs)).1 = n.toList := by
  cases cs
  case nil => rw [List.append_nil, Text.cut_of_not_mem h.no_slash]
  case cons c cs =>
    obtain rfl := hcs c rfl
    rw [Text.cut_append_sep cs h.no_slash]

theorem prefix_of_trail_prefix (hn : ∀ n ∈ ns, IsSegment n) (hm : ∀ m ∈ ms, IsSegment m)
    (h : trail ns ++ ['/'] <+: trail ms) : ns <+: ms := by
  induction ns generalizing ms
  case nil => exact List.nil_prefix
  case cons n ns hi =>
    cases ms
    case nil => simp at h
    case cons m ms =>
      obtain ⟨rest, h⟩ := h
      have h : n.toList ++ (trail ns ++ '/' :: rest) = m.toList ++ trail ms := by simpa using h
      have first : n.toList = m.toList := by
        have cut := congrArg (fun cs => (Text.cut '/' cs).1) h
        rwa [fst_cut_of_head (hn n (by simp)) (by cases ns <;> simp),
          fst_cut_of_head (hm m (by simp)) (by cases ms <;> simp)] at cut
      obtain rfl := String.toList_injective first
      have below : ns <+: ms := hi (fun k hk => hn k (by simp [hk]))
        (fun k hk => hm k (by simp [hk])) ⟨rest, by simpa using h⟩
      exact List.cons_prefix_cons.2 ⟨rfl, below⟩

-- The items that a path covers are those on whose way it lies.
theorem covers_ofNames (hn : ∀ n ∈ ns, IsSegment n) (hm : ∀ m ∈ ms, IsSegment m) :
    covers (ofNames ns) (ofNames ms) ↔ ns <+: ms := by
  by_cases top : ns = []
  case pos =>
    subst top
    cases ms <;> simp [covers, ofNames, toList_root]
  case neg =>
    rw [covers, if_neg (mt (ofNames_eq_root_iff hn).1 top), Bool.or_eq_true, beq_iff_eq,
      List.isPrefixOf_iff_prefix, toList_ofNames top]
    constructor
    case mp =>
      rintro (same | below)
      · exact ofNames_injective hm hn same ▸ List.prefix_refl _
      · have : ms ≠ [] := by
          rintro rfl
          simpa [toList_root, trail_eq_nil_iff, top] using below.length_le
        exact prefix_of_trail_prefix hn hm (toList_ofNames this ▸ below)
    case mpr =>
      rintro ⟨rest, rfl⟩
      cases rest
      case nil  => exact .inl (by rw [List.append_nil])
      case cons k rest =>
        rw [toList_ofNames (by simp), trail_append, trail_cons]
        exact .inr ⟨k.toList ++ trail rest, by simp⟩

-- Which texts are paths.

theorem validate_ofNames (h : ∀ n ∈ ns, IsSegment n) : validate (ofNames ns) = .ok () := by
  cases ns
  case nil => simp [validate]
  case cons n ns =>
    have hl : (ofNames (n :: ns)).toList = _ := toList_ofNames (by simp)
    rw [trail_cons, List.cons_append] at hl
    have : [] ∉ segments (n.toList ++ trail ns) := by
      rw [pieces_trail h, List.mem_map]
      rintro ⟨m, hm, hc⟩
      exact (h m hm).toList_ne_nil hc
    simp [validate, ofNames_eq_root_iff h, hl, this]

theorem exists_names_of_validate {path : String} (h : validate path = .ok ()) :
    ∃ ns, (∀ n ∈ ns, IsSegment n) ∧ path = ofNames ns := by
  unfold validate at h
  split at h
  case isTrue hr => exact ⟨[], by simp, hr⟩
  case isFalse =>
    split at h
    case h_2 => cases h
    case h_1 cs hp =>
      split at h
      case isTrue => cases h
      case isFalse he =>
        refine ⟨(segments cs).map String.ofList, ?_, ?_⟩
        · intro n hn
          obtain ⟨piece, hm, rfl⟩ := List.mem_map.1 hn
          refine ⟨fun hc => he ?_, ?_⟩
          · have : piece = [] := by simpa using hc
            exact this ▸ hm
          · have : '/' ∉ (Text.cut '/' cs).1 ∧ _ := Text.sep_not_mem_cut cs
            rw [String.toList_ofList]
            rcases List.mem_cons.1 hm with rfl | hm
            · exact this.1
            · exact this.2 _ hm
        · apply String.toList_injective
          rw [hp, toList_ofNames (by simp [segments, Text.pieces]), trail, List.flatMap_map]
          have : Text.glue '/' _ _ = cs := Text.glue_cut cs
          simp only [Text.glue] at this
          simp [segments, Text.pieces, this]

end PolicyTree.Path
