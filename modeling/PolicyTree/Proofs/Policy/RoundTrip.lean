import Mathlib.Tactic.Common
import PolicyTree.Proofs.Policy.Content
import PolicyTree.Proofs.Policy.Storing

namespace PolicyTree

-- Node types by which entries are told from other nodes, and those that allow from the others.
structure NodeTypes.TellsEntries (t : NodeTypes) : Prop where
  allow : Policy.entryType ∈ t.expand [Policy.allowType]
  deny  : Policy.entryType ∈ t.expand [Policy.denyType]
  apart : Policy.allowType ∉ t.expand [Policy.denyType]

instance {t : NodeTypes} : Decidable t.TellsEntries :=
  decidable_of_iff
    (Policy.entryType ∈ t.expand [Policy.allowType] ∧
      Policy.entryType ∈ t.expand [Policy.denyType] ∧
      Policy.allowType ∉ t.expand [Policy.denyType])
    ⟨fun h => ⟨h.1, h.2.1, h.2.2⟩, fun h => ⟨h.1, h.2, h.3⟩⟩

-- Entries that are made of known privileges.

namespace Entry

variable {l : List Privilege} {p : Privilege} {r : Registry} {e : Entry} {name : String}

theorem mem_dropRepeated (h : ∀ p ∈ l, ∀ q ∈ l, p.name = q.name → p = q) :
    p ∈ dropRepeated l ↔ p ∈ l := by
  induction l generalizing p
  case nil => simp [dropRepeated]
  case cons q l hi =>
    have hi {p : Privilege} := hi (p := p) fun p hp p' hp' =>
      h p (List.mem_cons_of_mem _ hp) p' (List.mem_cons_of_mem _ hp')
    rw [List.mem_cons, ← hi, dropRepeated]
    split
    case h_1 hd => simp [hd]
    case h_2 q' l' hd =>
      split
      case isFalse => simp [hd]
      case isTrue hq =>
        have hq' : q' ∈ l := hi.1 (by simp [hd])
        obtain rfl := h q (by simp) q' (List.mem_cons_of_mem _ hq') hq
        simp [hd]

theorem make_eq_ok_iff {principal : String} {privileges : List Privilege} {isAllow : Bool}
    {restrictions : Restrictions} {owner : NodeHandle} :
    make principal privileges isAllow restrictions owner = .ok e ↔
      principal ≠ "" ∧ privileges ≠ [] ∧ (∀ p ∈ privileges, p.isAbstract = false) ∧
      (∃ glob, glob? restrictions = .ok glob) ∧
      ⟨principal, dropRepeated (sortOn (·.name) privileges), isAllow, restrictions, owner⟩ = e := by
  have none_iff : privileges.find? (·.isAbstract) = none ↔
      ∀ p ∈ privileges, p.isAbstract = false := by
    simp [List.find?_eq_none]
  unfold make
  rw [← none_iff]
  by_cases hp : principal = "" <;> by_cases hl : privileges = [] <;>
    cases hf : privileges.find? (·.isAbstract) <;> simp [hp, hl]

-- The entry was made, of privileges that the registry knows.
def MadeFrom (r : Registry) (e : Entry) : Prop :=
  ∃ privileges, (∀ p ∈ privileges, r.get p.name = .ok p) ∧
    make e.principal privileges e.isAllow e.restrictions e.owner = .ok e

-- Privileges that a registry knows by one name are the same.
theorem known_inj (known : ∀ p ∈ l, r.get p.name = .ok p) :
    ∀ p ∈ l, ∀ q ∈ l, p.name = q.name → p = q := fun p hp q hq hname =>
  Except.ok.inj ((known p hp).symm.trans (hname ▸ known q hq))

theorem mem_normalized (known : ∀ p ∈ l, r.get p.name = .ok p) :
    p ∈ dropRepeated (sortOn (·.name) l) ↔ p ∈ l := by
  rw [mem_dropRepeated (known_inj (r := r) (by simpa using known)), mem_sortOn]

theorem bitsOf_normalized (known : ∀ p ∈ l, r.get p.name = .ok p) :
    Privilege.bitsOf (dropRepeated (sortOn (·.name) l)) = Privilege.bitsOf l := by
  ext i
  simp [Privilege.bitsOf, mem_normalized known]

theorem getAll_names (known : ∀ p ∈ l, r.get p.name = .ok p) :
    r.getAll (l.map (·.name)) = .ok l := by
  induction l
  case nil => rfl
  case cons p l hi =>
    have hi := hi fun p hp => known p (List.mem_cons_of_mem _ hp)
    rw [Registry.getAll] at hi ⊢
    simp [List.mapM_cons, known p, hi, bind, Except.bind, pure, Except.pure]

-- What is read back of the restrictions of an entry.
def readable (restrictions : Restrictions) : Restrictions :=
  restrictions.filter fun name _ => Policy.isRestriction name

theorem glob_readable {restrictions : Restrictions} :
    glob? (readable restrictions) = glob? restrictions := by
  have : (readable restrictions)[Glob.restrictionName]? = restrictions[Glob.restrictionName]? := by
    have named : Policy.isRestriction Glob.restrictionName := by decide
    cases h : restrictions[Glob.restrictionName]? <;> simp [readable, h, named]
  rw [glob?, glob?, this]

-- Made once more, of the privileges that it has and the restrictions that are read back, the entry
-- is as it was but for those restrictions.
theorem MadeFrom.remake (h : e.MadeFrom r) (owner : NodeHandle) :
    r.getAll (e.privileges.map (·.name)) = .ok e.privileges ∧
    ∃ e', make e.principal e.privileges e.isAllow (readable e.restrictions) owner = .ok e' ∧
      e'.content = (e.principal, e.bits, e.isAllow, readable e.restrictions) := by
  obtain ⟨privileges, known, hm⟩ := h
  obtain ⟨hp, hl, concrete, hglob, he⟩ := make_eq_ok_iff.1 hm
  have privileges_eq : e.privileges = dropRepeated (sortOn (·.name) privileges) := by rw [← he]
  have mem (p : Privilege) : p ∈ e.privileges ↔ p ∈ privileges := by
    rw [privileges_eq, mem_normalized known]
  have known' : ∀ p ∈ e.privileges, r.get p.name = .ok p := fun p hp => known p ((mem p).1 hp)
  refine ⟨getAll_names known', _, make_eq_ok_iff.2 ⟨hp, ?_, ?_, ?_, rfl⟩, ?_⟩
  · obtain ⟨p, hp⟩ := List.exists_mem_of_ne_nil _ hl
    exact List.ne_nil_of_mem ((mem p).2 hp)
  · exact fun p hp => concrete p ((mem p).1 hp)
  · rw [glob_readable]
    exact hglob
  · simp [content, bits, bitsOf_normalized known']

-- No restriction has the place of the principal or of the privileges.
def Apart (e : Entry) : Prop :=
  Policy.principalProperty ∉ e.restrictions ∧ Policy.privilegesProperty ∉ e.restrictions

theorem getElem?_properties : e.properties[name]? = (e.restrictions[name]?).or
    (if Policy.privilegesProperty = name then some (.names (e.privileges.map (·.name)))
    else if Policy.principalProperty = name then some (.string e.principal) else none) := by
  unfold properties
  rw [← Std.ExtTreeMap.insertMany_list_eq_foldl]
  cases h : e.restrictions[name]?
  case some v =>
    rw [Std.ExtTreeMap.getElem?_insertMany_list_of_mem (v := v) Std.ReflCmp.compare_self
      Std.ExtTreeMap.distinct_keys_toList (Std.ExtTreeMap.mem_toList_iff_getElem?_eq_some.2 h)]
    rfl
  case none =>
    rw [Std.ExtTreeMap.getElem?_insertMany_list_of_contains_eq_false]
    · simp only [Std.ExtTreeMap.getElem?_insert, Std.LawfulEqCmp.compare_eq_iff_eq,
        Std.ExtTreeMap.getElem?_empty, Option.none_or]
    · have : name ∉ e.restrictions := by rw [Std.ExtTreeMap.mem_iff_isSome_getElem?, h]; decide
      simpa using this

end Entry

namespace Policy

variable {s : Store} {t : NodeTypes} {r : Registry} {o h : NodeHandle} {n : Node} {e : Entry}
  {policy : NodeId} {name : String}

def readRestriction (tree : TreeView) (entry : NodeHandle) (restrictions : Restrictions)
    (name : String) : Except TreeError Restrictions :=
  return match ← tree.property entry name with
    | some value => restrictions.insert name value
    | none => restrictions

theorem readRestrictions_eq (hn : s.nodes[h.id]? = some n) :
    readRestrictions (s.view t) h = .ok (Entry.readable n.properties) := by
  have go (names : List String) (found : Restrictions)
      (known : ∀ name ∈ names, name ∈ n.properties) :
      ∃ m, names.foldlM (readRestriction (s.view t) h) found = .ok m ∧
        ∀ name : String, m[name]? = if name ∈ names then n.properties[name]? else found[name]? := by
    induction names generalizing found
    case nil => exact ⟨found, rfl, by simp⟩
    case cons name names hi =>
      obtain ⟨value, hv⟩ := Option.isSome_iff_exists.1
        (Std.ExtTreeMap.mem_iff_isSome_getElem?.1 (known name (by simp)))
      obtain ⟨m, hm, hlook⟩ :=
        hi (found.insert name value) fun x hx => known x (by simp [hx])
      refine ⟨m, ?_, fun x => ?_⟩
      · rw [List.foldlM_cons, readRestriction, Store.view_property hn, hv]
        exact hm
      · simp only [hlook, Std.ExtTreeMap.getElem?_insert, Std.LawfulEqCmp.compare_eq_iff_eq]
        by_cases hxn : name = x
        case pos => subst hxn; simp [hv]
        case neg => simp [hxn, Ne.symm hxn]
  obtain ⟨m, hm, hlook⟩ := go (n.properties.keys.filter isRestriction) ∅
    fun name hname => by simpa using (List.mem_filter.1 hname).1
  have : m = Entry.readable n.properties := by
    refine Std.ExtTreeMap.ext_getElem? fun name => ?_
    simp only [hlook, Entry.readable, Std.ExtTreeMap.getElem?_filter', List.mem_filter,
      Std.ExtTreeMap.mem_keys, Std.ExtTreeMap.mem_iff_isSome_getElem?]
    cases n.properties[name]? <;> by_cases hr : isRestriction name <;> simp [hr, Option.filter]
  rw [readRestrictions, Store.view_propertyNames hn, ← this]
  exact hm

-- The node of an entry is read as the entry, as far as its restrictions can be read.
theorem required_eq_ok_iff {α : Type} {name : String} {content? : Value → Option α} {a : α}
    (hn : s.nodes[h.id]? = some n) : required (s.view t) h name content? = .ok a ↔
      ∃ v, n.properties[name]? = some v ∧ content? v = some a := by
  have read : (s.view t).property h name = .ok n.properties[name]? := Store.view_property hn
  simp only [required, read, bind_eq_ok_iff, liftM_tree_eq_ok_iff, Except.ok.injEq,
    exists_eq_left', ← Option.bind_eq_some_iff]
  cases n.properties[name]?.bind content? <;> simp

theorem readEntry_node (types : t.TellsEntries) (hn : s.nodes[h.id]? = some (e.node policy name))
    (apart : e.Apart) (made : e.MadeFrom r) : ∃ e', readEntry (s.view t) r o h = .ok e' ∧
      e'.content = (e.principal, e.bits, e.isAllow, Entry.readable e.restrictions) := by
  have principal : e.properties[principalProperty]? = some (.string e.principal) := by
    have : e.restrictions[principalProperty]? = none := by
      simpa using apart.1
    rw [Entry.getElem?_properties, this]
    rfl
  have privileges : e.properties[privilegesProperty]? =
      some (.names (e.privileges.map (·.name))) := by
    have : e.restrictions[privilegesProperty]? = none := by
      simpa using apart.2
    rw [Entry.getElem?_properties, this]
    rfl
  have restrictions : Entry.readable e.properties = Entry.readable e.restrictions := by
    refine Std.ExtTreeMap.ext_getElem? fun name => ?_
    rw [Entry.readable, Entry.readable, Std.ExtTreeMap.getElem?_filter',
      Std.ExtTreeMap.getElem?_filter', Entry.getElem?_properties]
    -- Neither the principal nor the privileges count as a restriction.
    have others : isRestriction name → privilegesProperty ≠ name ∧ principalProperty ≠ name := by
      intro hr
      refine ⟨?_, ?_⟩ <;> rintro rfl <;> revert hr <;> decide
    cases h : e.restrictions[name]?
    case some v => rfl
    case none =>
      by_cases hr : isRestriction name
      case neg => simp [hr]
      case pos => simp [others hr]
  have isAllow : (allowType ∈ s.effectiveTypes t h.id : Bool) = e.isAllow := by
    have mem : allowType ∈ s.effectiveTypes t h.id ↔ _ := Store.mem_effectiveTypes hn
    cases ha : e.isAllow
    case true =>
      refine decide_eq_true (mem.2 (NodeTypes.mem_expand.2 ⟨allowType, ?_, .refl⟩))
      simp [Entry.node, Node.types, Node.new, ha]
    case false =>
      refine decide_eq_false fun h => types.apart ?_
      simpa [Entry.node, Node.types, Node.new, ha] using mem.1 h
  obtain ⟨known, e', he', content⟩ := made.remake o
  have required_eq {α : Type} {name : String} {content? : Value → Option α} {v : Value} {a : α}
      (hv : e.properties[name]? = some v) (hc : content? v = some a) :
      required (s.view t) h name content? = .ok a :=
    (required_eq_ok_iff hn).2 ⟨v, hv, hc⟩
  refine ⟨e', ?_, content⟩
  rw [readEntry]
  refine bind_eq_ok_iff.2 ⟨_, required_eq principal rfl, bind_eq_ok_iff.2
    ⟨_, required_eq privileges rfl, bind_eq_ok_iff.2 ⟨_, known, bind_eq_ok_iff.2
      ⟨_, mapError_eq_ok_iff.2 (readRestrictions_eq hn), bind_eq_ok_iff.2
        ⟨_, mapError_eq_ok_iff.2 (Store.view_isType hn), mapError_eq_ok_iff.2 ?_⟩⟩⟩⟩⟩
  rw [isAllow]
  show Entry.make _ _ _ (Entry.readable e.properties) _ = _
  rw [restrictions]
  exact he'

-- Entries that are added one after the other.

variable {p q : Policy} {es : List Entry}

theorem mem_add_of_mem {e e' : Entry} (h : e' ∈ p.entries) : e' ∈ (p.add e).entries := by
  unfold add
  split
  · exact h
  · simp [h]

-- An entry that is added is listed, or the same one is.
theorem exists_mem_add : ∃ e' ∈ (p.add e).entries, e'.content = e.content := by
  unfold add
  split
  case isTrue hc =>
    obtain ⟨e', he', hs⟩ := List.any_eq_true.1 hc
    exact ⟨e', he', by simpa [Entry.same] using hs⟩
  case isFalse => exact ⟨e, by simp, rfl⟩

def Distinct (p : Policy) : Prop := (p.entries.map Entry.content).Nodup

instance : Decidable p.Distinct := inferInstanceAs (Decidable (List.Nodup _))

theorem distinct_empty : (empty o).Distinct := List.nodup_nil

theorem Distinct.add (h : p.Distinct) (e : Entry) : (p.add e).Distinct := by
  unfold Policy.add
  split
  case isTrue => exact h
  case isFalse hc =>
    have new : ∀ e' ∈ p.entries, e'.content ≠ e.content := by
      simpa [contains, Entry.same] using hc
    simpa [Distinct, List.nodup_append] using ⟨h, new⟩

theorem Distinct.remove (h : p.Distinct) (e : Entry) : (p.remove e).Distinct :=
  h.sublist (List.eraseP_sublist.map _)

theorem foldl_add (h : (p.entries.map Entry.content ++ es.map Entry.content).Nodup) :
    es.foldl add p = { p with entries := p.entries ++ es } := by
  induction es generalizing p
  case nil => simp
  case cons e es hi =>
    have new : p.contains e = false := by
      rw [List.nodup_append] at h
      refine Bool.eq_false_iff.2 fun hc => ?_
      obtain ⟨e', he', hs⟩ := List.any_eq_true.1 hc
      have hs : e'.content = e.content := by simpa [Entry.same] using hs
      exact h.2.2 _ (List.mem_map.2 ⟨e', he', rfl⟩) e.content (by simp) hs
    have added : p.add e = { p with entries := p.entries ++ [e] } := by simp [add, new]
    rw [List.foldl_cons, added, hi (by simpa using h)]
    simp

-- What is read of the nodes of entries, one after the other.

variable {ids : List NodeId} {named : List (String × Entry)}

theorem foldlM_readEntry (wf : s.WellFormed) (types : t.TellsEntries)
    (h : ids.map (s.nodes[·]?) = named.map fun b => some (b.2.node policy b.1))
    (all : ∀ b ∈ named, b.2.Apart ∧ b.2.MadeFrom r) :
    ∃ es : List Entry, (ids.filterMap s.handle?).foldlM
        (fun p e => p.add <$> readEntry (s.view t) r o e) p = .ok (es.foldl add p) ∧
      es.map Entry.content = named.map fun b =>
        (b.2.principal, b.2.bits, b.2.isAllow, Entry.readable b.2.restrictions) := by
  induction ids generalizing named p
  case nil =>
    obtain rfl : named = [] := by simpa using h.symm
    exact ⟨[], rfl, rfl⟩
  case cons id ids hi =>
    cases named
    case nil => simp at h
    case cons b named =>
      obtain ⟨hn, h⟩ := List.cons.inj h
      have ⟨apart, made⟩ := all b (by simp)
      have ⟨ns, stands⟩ := wf.stands hn
      have ⟨e, read, content⟩ :=
        readEntry_node (o := o) (h := ⟨id, Path.ofNames ns⟩) types hn apart made
      have ⟨es, rest, contents⟩ := hi (p := p.add e) h fun b hb => all b (by simp [hb])
      refine ⟨e :: es, ?_, by simp [content, contents]⟩
      rw [List.filterMap_cons, wf.handle_eq stands, List.foldlM_cons, read]
      exact rest

theorem exists_read_of_foldlM (wf : s.WellFormed) (types : t.TellsEntries)
    (h : ids.map (s.nodes[·]?) = named.map fun b => some (b.2.node policy b.1))
    (read : (ids.filterMap s.handle?).foldlM (fun p e => p.add <$> readEntry (s.view t) r o e) p =
      .ok q) :
    (∀ e ∈ p.entries, e ∈ q.entries) ∧ ∀ b ∈ named, b.2.Apart → b.2.MadeFrom r →
      ∃ e ∈ q.entries, e.content =
        (b.2.principal, b.2.bits, b.2.isAllow, Entry.readable b.2.restrictions) := by
  induction ids generalizing named p
  case nil =>
    obtain rfl : named = [] := by simpa using h.symm
    obtain rfl := Except.ok.inj read
    simp
  case cons id ids hi =>
    cases named
    case nil => simp at h
    case cons b named =>
      obtain ⟨hn, h⟩ := List.cons.inj h
      have ⟨ns, stands⟩ := wf.stands hn
      rw [List.filterMap_cons, wf.handle_eq stands, List.foldlM_cons, bind_eq_ok_iff] at read
      obtain ⟨_, head, read⟩ := read
      obtain ⟨e, he, rfl⟩ := map_eq_ok_iff.1 head
      have ⟨kept, rest⟩ := hi h read
      refine ⟨fun e' he' => kept e' (mem_add_of_mem he'), fun b' hb' apart made => ?_⟩
      rcases List.mem_cons.1 hb' with rfl | hb'
      · have ⟨e', he', content⟩ :=
          readEntry_node (o := o) (h := ⟨id, Path.ofNames ns⟩) types hn apart made
        obtain rfl := Except.ok.inj (he.symm.trans he')
        have ⟨e', listed, same⟩ := exists_mem_add (p := p) (e := e)
        exact ⟨e', kept e' listed, same.trans content⟩
      · exact rest b' hb' apart made

end Policy

namespace Store.Lists

variable {s : Store} {t : NodeTypes} {r : Registry} {owner policy : NodeId} {ids : List NodeId}
  {nodes : List Node} {n : Node} {p q : Policy} {e : Entry}

theorem owner_mem (h : s.Lists t owner policy ids nodes) : ∃ n, s.nodes[owner]? = some n :=
  exists_of_mem_effectiveTypes h.controlled

theorem policyOf_eq (h : s.Lists t owner policy ids nodes) (wf : s.WellFormed)
    (hn : s.nodes[owner]? = some n) : s.policyOf? t owner = some policy := by
  refine (policyOf_eq_some_iff wf hn).2 ⟨h.controlled, ?_, _, h.list, rfl, rfl⟩
  refine (mem_effectiveTypes h.list).2 (NodeTypes.mem_expand.2 ⟨Policy.listType, ?_, .refl⟩)
  simp [Node.types, Node.new]

theorem entriesOf_eq (h : s.Lists t owner policy ids (p.nodes policy)) (types : t.TellsEntries) :
    s.entriesOf t policy = ids := by
  have each (id : NodeId) (hid : id ∈ ids) : Policy.entryType ∈ s.effectiveTypes t id := by
    have ⟨n, hm, hn⟩ := h.node hid
    obtain ⟨⟨name, e⟩, _, rfl⟩ := List.mem_map.1 hm
    rw [mem_effectiveTypes hn]
    cases ha : e.isAllow <;> simp [Entry.node, Node.types, Node.new, ha, types.allow, types.deny]
  simpa [entriesOf, h.list, List.filter_eq_self] using each

theorem nodes_eq (h : s.Lists t owner policy ids (p.nodes policy)) :
    ids.map (s.nodes[·]?) = ((Policy.nodeNames (p.entries.map (·.isAllow))).zip p.entries).map
      fun b => some (b.2.node policy b.1) := by
  simpa [Policy.nodes, Function.comp_def] using h.entries

theorem load_eq (h : s.Lists t p.owner.id policy ids (p.nodes policy)) (wf : s.WellFormed)
    (types : t.TellsEntries) : Policy.load (s.view t) r p.owner =
      some <$> (ids.filterMap s.handle?).foldlM
        (fun q e => q.add <$> Policy.readEntry (s.view t) r p.owner e) (.empty p.owner) := by
  obtain ⟨n, hn⟩ := h.owner_mem
  rw [Policy.load_eq wf hn, h.policyOf_eq wf hn]
  simp only [h.entriesOf_eq types]

-- A policy that was stored is read back as the same one, if all restrictions can be read.
theorem load_same (h : s.Lists t p.owner.id policy ids (p.nodes policy)) (wf : s.WellFormed)
    (types : t.TellsEntries) (distinct : p.Distinct)
    (made : ∀ e ∈ p.entries, e.MadeFrom r)
    (named : ∀ e ∈ p.entries, ∀ name ∈ e.restrictions, Policy.isRestriction name) :
    ∃ q, Policy.load (s.view t) r p.owner = .ok (some q) ∧ q.same p := by
  have apart {e : Entry} (he : e ∈ p.entries) : e.Apart :=
    ⟨fun hm => absurd (named e he _ hm) (by decide), fun hm => absurd (named e he _ hm) (by decide)⟩
  have readable {e : Entry} (he : e ∈ p.entries) :
      Entry.readable e.restrictions = e.restrictions := by
    refine Std.ExtTreeMap.ext_getElem? fun name => ?_
    rw [Entry.readable, Std.ExtTreeMap.getElem?_filter']
    cases hv : e.restrictions[name]?
    case none => rfl
    case some v =>
      simp [named e he name (Std.ExtTreeMap.mem_iff_isSome_getElem?.2 (by simp [hv]))]
  have length : (Policy.nodeNames (p.entries.map (·.isAllow))).length = p.entries.length := by
    simp [Policy.length_nodeNames]
  have ⟨es, read, contents⟩ := Policy.foldlM_readEntry (p := .empty p.owner) (o := p.owner)
    (r := r) wf types h.nodes_eq
    fun b hb => ⟨apart (List.of_mem_zip hb).2, made _ (List.of_mem_zip hb).2⟩
  have contents : es.map Entry.content = p.entries.map Entry.content := by
    have written : ((Policy.nodeNames (p.entries.map (·.isAllow))).zip p.entries).map Prod.snd =
        p.entries := List.map_snd_zip (by omega)
    rw [contents]
    conv => rhs; rw [← written, List.map_map]
    refine List.map_congr_left fun b hb => ?_
    rw [readable (List.of_mem_zip hb).2]
    rfl
  refine ⟨⟨p.owner, es⟩, ?_, by simp [Policy.same, contents]⟩
  have distinct : (es.map Entry.content).Nodup := contents ▸ distinct
  rw [h.load_eq wf types, read, Policy.foldl_add (by simpa [Policy.empty] using distinct)]
  rfl

-- Whatever else is read, an entry without a restriction in the place of its principal or of its
-- privileges is read as one for the same principal, with the same privileges.
theorem mem_of_load (h : s.Lists t p.owner.id policy ids (p.nodes policy)) (wf : s.WellFormed)
    (types : t.TellsEntries) (read : Policy.load (s.view t) r p.owner = .ok (some q))
    (he : e ∈ p.entries) (apart : e.Apart) (made : e.MadeFrom r) :
    ∃ e' ∈ q.entries,
      e'.content = (e.principal, e.bits, e.isAllow, Entry.readable e.restrictions) := by
  rw [h.load_eq wf types] at read
  obtain ⟨_, folded, hq⟩ := map_eq_ok_iff.1 read
  obtain rfl := Option.some_inj.1 hq
  have ⟨i, hi, hei⟩ := List.getElem_of_mem he
  have hi' : i < (Policy.nodeNames (p.entries.map (·.isAllow))).length := by
    simpa [Policy.length_nodeNames] using hi
  have ⟨_, each⟩ := Policy.exists_read_of_foldlM wf types h.nodes_eq folded
  have zipped : ((Policy.nodeNames (p.entries.map (·.isAllow)))[i], e) ∈
      (Policy.nodeNames (p.entries.map (·.isAllow))).zip p.entries := by
    rw [← hei, ← List.getElem_zip (h := by rw [List.length_zip]; omega)]
    exact List.getElem_mem _
  exact each _ zipped apart made

end Store.Lists

end PolicyTree
