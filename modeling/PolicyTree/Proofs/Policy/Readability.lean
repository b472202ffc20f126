import Mathlib.Data.List.Forall2
import PolicyTree.Proofs.Policy.RoundTrip

namespace PolicyTree

theorem mapM_eq_ok_iff {α β ε : Type} {f : α → Except ε β} {l : List α} {bs : List β} :
    l.mapM f = .ok bs ↔ List.Forall₂ (f · = .ok ·) l bs := by
  induction l generalizing bs
  case nil => cases bs <;> simp [pure, Except.pure]
  case cons a l hi =>
    simp only [List.mapM_cons, bind_eq_ok_iff, pure_eq_ok_iff, List.forall₂_cons_left_iff, hi]
    constructor
    case mp =>
      intro hm
      obtain ⟨b, hb, bs', hbs, he⟩ := hm
      exact ⟨b, bs', hb, hbs, he.symm⟩
    case mpr =>
      intro hm
      obtain ⟨b, bs', hb, hbs, he⟩ := hm
      exact ⟨b, hb, bs', hbs, he.symm⟩

-- Each element has its match, all of them of one kind.
theorem exists_forall₂_iff {α β : Type} {R : α → β → Prop} {Q : β → Prop} {l : List α} :
    (∃ bs, List.Forall₂ R l bs ∧ ∀ b ∈ bs, Q b) ↔ ∀ a ∈ l, ∃ b, R a b ∧ Q b := by
  induction l
  case nil => simp
  case cons a l hi =>
    rw [List.forall_mem_cons, ← hi]
    constructor
    case mp =>
      intro hm
      have ⟨_, matched, hq⟩ := hm
      cases matched
      case cons b bs hb hbs =>
        have ⟨hqb, hqbs⟩ := List.forall_mem_cons.1 hq
        exact ⟨⟨b, hb, hqb⟩, bs, hbs, hqbs⟩
    case mpr =>
      intro hm
      have ⟨⟨b, hb, hqb⟩, bs, hbs, hqbs⟩ := hm
      exact ⟨b :: bs, .cons hb hbs, List.forall_mem_cons.2 ⟨hqb, hqbs⟩⟩

@[simp] theorem liftM_entry_eq_ok_iff {α : Type} {x : Except EntryError α} {a : α} :
    (liftM x : Except AccessError α) = .ok a ↔ x = .ok a :=
  mapError_eq_ok_iff

theorem Registry.get_eq_ok_iff {r : Registry} {name : String} {p : Privilege} :
    r.get name = .ok p ↔ r.privileges[name]? = some p := by
  unfold get
  cases r.privileges[name]? <;> simp

theorem Glob.validate_eq_ok_iff {text : String} {u : Unit} :
    validate text = .ok u ↔ ∀ c ∈ text.toList, c ∉ unsupported := by
  have : text.toList.find? (· ∈ unsupported) = none ↔ ∀ c ∈ text.toList, c ∉ unsupported := by
    simp [List.find?_eq_none]
  rw [← this, validate]
  cases text.toList.find? (· ∈ unsupported) <;> simp

namespace Policy

-- The properties that a node needs to be an entry.
structure Describes (r : Registry) (properties : Std.ExtTreeMap String Value) : Prop where
  principal  : ∃ v name, properties[principalProperty]? = some v ∧ v.asString? = some name ∧
    name ≠ ""
  privileges : ∃ v names, properties[privilegesProperty]? = some v ∧
    v.asStrings? = some names ∧ names ≠ [] ∧
    ∀ name ∈ names, ∃ p, r.privileges[name]? = some p ∧ p.isAbstract = false
  glob       : ∀ v, properties[Glob.restrictionName]? = some v →
    ∃ text, v.asString? = some text ∧ ∀ c ∈ text.toList, c ∉ Glob.unsupported

variable {s : Store} {t : NodeTypes} {r : Registry} {o e : NodeHandle} {n : Node} {p : Policy}
  {entry : Entry}

theorem glob_isOk_iff {restrictions : Restrictions} :
    (∃ glob, Entry.glob? restrictions = .ok glob) ↔
      ∀ v, restrictions[Glob.restrictionName]? = some v →
        ∃ text, v.asString? = some text ∧ ∀ c ∈ text.toList, c ∉ Glob.unsupported := by
  unfold Entry.glob?
  cases restrictions[Glob.restrictionName]?
  case none => simp
  case some v =>
    cases hv : v.asString?
    case none => simp [hv]
    case some text =>
      simp only [hv, bind_eq_ok_iff, pure_eq_ok_iff, Option.some.injEq, forall_eq', exists_eq_left',
        Glob.validate_eq_ok_iff]
      constructor
      case mp  => exact fun hg => hg.elim fun _ hg => hg.elim fun _ hg => hg.1
      case mpr => exact fun hg => ⟨some text, (), hg, rfl⟩

theorem readEntry_eq_ok_iff (hn : s.nodes[e.id]? = some n) :
    readEntry (s.view t) r o e = .ok entry ↔ ∃ principal names privileges,
      required (s.view t) e principalProperty Value.asString? = .ok principal ∧
      required (s.view t) e privilegesProperty Value.asStrings? = .ok names ∧
      r.getAll names = .ok privileges ∧
      Entry.make principal privileges (allowType ∈ s.effectiveTypes t e.id : Bool)
        (Entry.readable n.properties) o = .ok entry := by
  simp only [readEntry, bind_eq_ok_iff, liftM_tree_eq_ok_iff, liftM_entry_eq_ok_iff,
    readRestrictions_eq hn, Store.view_isType hn, Except.ok.injEq, exists_eq_left']
  constructor
  case mp =>
    intro hr
    obtain ⟨principal, hp, names, hl, privileges, hg, made⟩ := hr
    exact ⟨principal, names, privileges, hp, hl, hg, made⟩
  case mpr =>
    intro hr
    obtain ⟨principal, names, privileges, hp, hl, hg, made⟩ := hr
    exact ⟨principal, hp, names, hl, privileges, hg, made⟩

-- An entry can be read if and only if its node has what an entry needs.
theorem readEntry_isOk_iff (hn : s.nodes[e.id]? = some n) :
    (∃ entry, readEntry (s.view t) r o e = .ok entry) ↔ Describes r n.properties := by
  simp only [readEntry_eq_ok_iff hn, required_eq_ok_iff hn, Registry.getAll, mapM_eq_ok_iff,
    Registry.get_eq_ok_iff, Entry.make_eq_ok_iff, Entry.glob_readable, glob_isOk_iff]
  constructor
  case mp =>
    intro hr
    obtain ⟨entry, principal, names, privileges, ⟨v, hv, hp⟩, ⟨w, hw, hl⟩, known, hne, hsome,
      concrete, glob, _⟩ := hr
    refine ⟨⟨v, principal, hv, hp, hne⟩, ⟨w, names, hw, hl, ?_,
      exists_forall₂_iff.1 ⟨privileges, known, concrete⟩⟩, glob⟩
    rintro rfl
    exact hsome (List.forall₂_nil_left_iff.1 known)
  case mpr =>
    intro hd
    obtain ⟨v, principal, hv, hp, hne⟩ := hd.principal
    obtain ⟨w, names, hw, hl, hsome, known⟩ := hd.privileges
    obtain ⟨privileges, known, concrete⟩ := exists_forall₂_iff.2 known
    refine ⟨_, principal, names, privileges, ⟨v, hv, hp⟩, ⟨w, hw, hl⟩, known, hne, ?_, concrete,
      hd.glob, rfl⟩
    rintro rfl
    exact hsome (List.forall₂_nil_right_iff.1 known)

theorem owner_of_readEntry (hn : s.nodes[e.id]? = some n)
    (hr : readEntry (s.view t) r o e = .ok entry) : entry.owner = o := by
  have ⟨_, _, _, _, _, _, made⟩ := (readEntry_eq_ok_iff hn).1 hr
  have ⟨_, _, _, _, made⟩ := Entry.make_eq_ok_iff.1 made
  exact made ▸ rfl

-- Entries that are read one after the other.

variable {f : NodeHandle → Except AccessError Entry} {l : List NodeHandle} {q : Policy}

theorem foldlM_add_isOk_iff : (∃ q, l.foldlM (fun p e => p.add <$> f e) p = .ok q) ↔
    ∀ e ∈ l, ∃ entry, f e = .ok entry := by
  induction l generalizing p
  case nil => simp [pure, Except.pure]
  case cons e l hi =>
    simp only [List.foldlM_cons, bind_eq_ok_iff, map_eq_ok_iff, List.forall_mem_cons]
    constructor
    case mp =>
      intro hf
      obtain ⟨q, _, ⟨entry, he, _⟩, hl⟩ := hf
      exact ⟨⟨entry, he⟩, hi.1 ⟨q, hl⟩⟩
    case mpr =>
      intro hf
      obtain ⟨⟨entry, he⟩, hl⟩ := hf
      obtain ⟨q, hq⟩ := (hi (p := p.add entry)).2 hl
      exact ⟨q, _, ⟨entry, he, rfl⟩, hq⟩

theorem foldlM_add_keeps {K : Policy → Prop} (hp : K p)
    (step : ∀ p entry, K p → ∀ e ∈ l, f e = .ok entry → K (p.add entry))
    (hq : l.foldlM (fun p e => p.add <$> f e) p = .ok q) : K q := by
  induction l generalizing p
  case nil => exact Except.ok.inj hq ▸ hp
  case cons e l hi =>
    simp only [List.foldlM_cons, bind_eq_ok_iff, map_eq_ok_iff] at hq
    obtain ⟨p', ⟨entry, he, hp'⟩, hq⟩ := hq
    exact hi (hp' ▸ step p entry hp e (by simp) he)
      (fun p entry hp e he => step p entry hp e (by simp [he])) hq

end Policy

namespace Store

variable {s : Store} {t : NodeTypes} {r : Registry} {o : NodeHandle} {n : Node} {p : Policy}

def Malformed (s : Store) (t : NodeTypes) (r : Registry) (owner : NodeId) : Prop :=
  ∃ policy, s.policyOf? t owner = some policy ∧ ∃ entry ∈ s.entriesOf t policy,
    ∃ n, s.nodes[entry]? = some n ∧ ¬Policy.Describes r n.properties

def listAt (s : Store) (t : NodeTypes) (r : Registry) (owner : NodeId) : List Entry :=
  match (s.handle? owner).map (Policy.load (s.view t) r) with
  | some (.ok (some p)) => p.entries
  | _ => []

namespace WellFormed

variable (h : s.WellFormed)

include h

theorem mem_entry_handles {policy : NodeId} {e : NodeHandle} :
    e ∈ (s.entriesOf t policy).filterMap s.handle? ↔
      e.id ∈ s.entriesOf t policy ∧ s.handle? e.id = some e := by
  rw [List.mem_filterMap]
  constructor
  case mp =>
    intro he
    have ⟨id, hid, he⟩ := he
    obtain ⟨rfl, _⟩ := h.handle_eq_some_iff.1 he
    exact ⟨hid, he⟩
  case mpr => exact fun he => ⟨e.id, he⟩

theorem load_isOk_iff (hn : s.nodes[o.id]? = some n) :
    (∃ list, Policy.load (s.view t) r o = .ok list) ↔ ¬s.Malformed t r o.id := by
  rw [Policy.load_eq h hn]
  cases hp : s.policyOf? t o.id
  case none => simp [Malformed, hp]
  case some policy =>
    have readable : (∃ p, ((s.entriesOf t policy).filterMap s.handle?).foldlM
        (fun (p : Policy) e => p.add <$> Policy.readEntry (s.view t) r o e) (.empty o) = .ok p) ↔
        ¬s.Malformed t r o.id := by
      rw [Policy.foldlM_add_isOk_iff]
      simp only [Malformed, hp, Option.some.injEq, exists_eq_left', not_exists, not_and, not_not,
        h.mem_entry_handles]
      constructor
      case mp =>
        intro all entry he n hn
        have ⟨ns, hs⟩ := h.stands hn
        have handle := h.handle_eq hs
        exact (Policy.readEntry_isOk_iff (e := ⟨entry, _⟩) hn).1 (all ⟨entry, _⟩ ⟨he, handle⟩)
      case mpr =>
        intro all e he
        have ⟨n, hn⟩ := entry_exists h he.1
        exact (Policy.readEntry_isOk_iff hn).2 (all e.id he.1 n hn)
    rw [← readable]
    simp only [map_eq_ok_iff]
    constructor
    case mp  => exact fun hl => hl.elim fun _ hl => hl.imp fun _ hl => hl.1
    case mpr => exact fun hp => hp.elim fun p hp => ⟨some p, p, hp, rfl⟩

-- Whether every policy can be read, told by reading them.
theorem readable_of_loads (hl : ∀ id ∈ s.nodes.keys, (Policy.load (s.view t) r ⟨id, ""⟩).isOk)
    (id : NodeId) : ¬s.Malformed t r id := by
  intro hm
  obtain ⟨n, hn⟩ : ∃ n, s.nodes[id]? = some n := by
    obtain ⟨policy, hp, _⟩ := hm
    by_cases controlled : Policy.mixin ∈ s.effectiveTypes t id
    case pos => exact exists_of_mem_effectiveTypes controlled
    case neg => simp [policyOf?, controlled] at hp
  have loads := hl id (Std.ExtTreeMap.mem_keys.2 (mem_nodes_iff.2 ⟨n, hn⟩))
  cases he : Policy.load (s.view t) r ⟨id, ""⟩
  case ok list => exact (h.load_isOk_iff hn).1 ⟨list, he⟩ hm
  case error e => simp [he, Except.isOk, Except.toBool] at loads

theorem load_keeps {K : Policy → Prop} (hn : s.nodes[o.id]? = some n)
    (hl : Policy.load (s.view t) r o = .ok (some p)) (empty : K (.empty o))
    (step : ∀ p entry, K p → entry.owner = o → K (p.add entry)) : K p := by
  rw [Policy.load_eq h hn] at hl
  cases hp : s.policyOf? t o.id <;> rw [hp] at hl
  case none => exact nomatch hl
  case some policy =>
    obtain ⟨q, hq, he⟩ := map_eq_ok_iff.1 hl
    obtain rfl := Option.some_inj.1 he
    refine Policy.foldlM_add_keeps empty (fun p entry hp e he read => ?_) hq
    have ⟨m, hm⟩ := entry_exists h (h.mem_entry_handles.1 he).1
    exact step p entry hp (Policy.owner_of_readEntry hm read)

theorem owner_of_load (hn : s.nodes[o.id]? = some n)
    (hl : Policy.load (s.view t) r o = .ok (some p)) : ∀ e ∈ p.entries, e.owner = o := by
  refine h.load_keeps (K := fun p => ∀ e ∈ p.entries, e.owner = o) hn hl ?_ ?_
  · simp [Policy.empty]
  · intro p entry hp howner e he
    unfold Policy.add at he
    split at he
    case isTrue  => exact hp e he
    case isFalse =>
      cases List.mem_append.1 he
      case inl he => exact hp e he
      case inr he => exact List.mem_singleton.1 he ▸ howner

theorem owner_of_listAt {ns : List String} {id : NodeId} {e : Entry} (hs : s.Stands ns id)
    (he : e ∈ s.listAt t r id) : e.owner = ⟨id, Path.ofNames ns⟩ := by
  have ⟨n, hn⟩ := h.mem_of_stands hs
  rw [listAt, h.handle_eq hs, Option.map_some] at he
  split at he
  case h_1 p found => exact h.owner_of_load hn (Option.some_inj.1 found) e he
  case h_2         => exact absurd he List.not_mem_nil

-- What is listed at a node is owned by it, and nothing of it is listed twice.
theorem listAt_keeps {id : NodeId} :
    (∀ e ∈ s.listAt t r id, e.owner.id = id) ∧ (s.listAt t r id).Nodup := by
  unfold listAt
  split
  case h_2 => simp
  case h_1 p found =>
    have ⟨o, ho, hl⟩ := Option.map_eq_some_iff.1 found
    obtain ⟨rfl, ns, hs, _⟩ := h.handle_eq_some_iff.1 ho
    have ⟨n, hn⟩ := h.mem_of_stands hs
    constructor
    · exact fun e he => congrArg NodeHandle.id (h.owner_of_load hn hl e he)
    · have : p.Distinct :=
        h.load_keeps hn hl Policy.distinct_empty fun p entry hp _ => hp.add entry
      exact .of_map _ this

end WellFormed

end Store

end PolicyTree
