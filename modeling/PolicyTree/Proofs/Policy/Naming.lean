import Mathlib.Tactic.Common
import PolicyTree.Proofs.Policy.Recognition
import PolicyTree.Proofs.Tree.Changes
import PolicyTree.Proofs.Tree.Following
import PolicyTree.Proofs.Types

namespace PolicyTree.Store

-- Whether those who ask for changes of policies are told of a path.
def Names (base next : Store) (path : String) : Prop :=
  path ∈ PolicyChange.ofEvents (next.view .initial)
    ((base.changes next .initial).filter PolicyChange.filter.accepts)

-- Whether there is an event, for those who ask, of a change of a kind to the policy of a path.
def Marks (base next : Store) (path : String) (m : Modifications) : Prop :=
  ∃ e ∈ (base.changes next .initial).filter PolicyChange.filter.accepts,
    PolicyChange.ofEvent (next.view .initial) e = .ok (some (path, m))

variable {base next : Store} {id o p : NodeId} {b n : Node} {ns : List String} {a name : String}

theorem marks_of_event {e : Event} {m : Modifications} {path : String}
    (he : e ∈ base.changes next .initial) (ha : PolicyChange.filter.accepts e)
    (h : PolicyChange.ofEvent (next.view .initial) e = .ok (some (path, m))) :
    Marks base next path m :=
  ⟨e, List.mem_filter.2 ⟨he, ha⟩, h⟩

theorem Marks.names {path : String} {m : Modifications} (h : Marks base next path m) :
    Names base next path :=
  have ⟨e, he, h⟩ := h
  PolicyChange.mem_ofEvents.2 ⟨e, he, m, h⟩

-- Whether events below a node, or about its properties, are for those who ask.
def Matters (s : Store) (id : NodeId) : Prop :=
  ∃ type ∈ [Policy.mixin, Policy.listType, Policy.entryType], type ∈ s.effectiveTypes .initial id

theorem marks_of_removed_policy (h : base.WellFormed) (hs : base.Stands ns o)
    (hb : base.nodes[id]? = some b) (hp : b.parent = some o) (hname : b.name = Policy.nodeName)
    (ho : base.Matters o) (gone : id ∉ next.nodes) :
    Marks base next (Path.ofNames ns) .removed := by
  have hid : base.Stands (ns ++ [b.name]) id := .child hs hp hb
  have hv := h.isSegment_of_stands hid
  have ⟨type, ht, hot⟩ := ho
  have event := removed_mem_changes (t := .initial) h hid hb hp gone
  refine marks_of_event event (PolicyChange.accepts_filter hv rfl hot ht) ?_
  rw [PolicyChange.ofEvent, PolicyChange.ofRemoval_policy]
  · simp [Path.parent_ofNames hv]
  · rw [Path.name_ofNames (h.isSegment hb hp), hname]

theorem marks_of_added_policy (h' : next.WellFormed) (hs : next.Stands ns o)
    (hn : next.nodes[id]? = some n) (hp : n.parent = some o) (ho : next.Matters o)
    (hl : Policy.listType ∈ next.effectiveTypes .initial id) (fresh : id ∉ base.nodes) :
    Marks base next (Path.ofNames ns) .added := by
  have hid : next.Stands (ns ++ [n.name]) id := .child hs hp hn
  have hv := h'.isSegment_of_stands hid
  have ⟨type, ht, hot⟩ := ho
  have event := added_mem_changes (t := .initial) h' hid hn hp fresh
  refine marks_of_event event (PolicyChange.accepts_filter hv rfl hot ht) ?_
  rw [PolicyChange.ofEvent, PolicyChange.ofAddition_list h' hn hl]
  simp [Path.parent_ofNames hv]

theorem marks_of_added_entry (h' : next.WellFormed) (hs : next.Stands (ns ++ [a]) p)
    (hn : next.nodes[id]? = some n) (hp : n.parent = some p) (hm : next.Matters p)
    (hl : Policy.listType ∉ next.effectiveTypes .initial id)
    (he : Policy.entryType ∈ next.effectiveTypes .initial id) (fresh : id ∉ base.nodes) :
    Marks base next (Path.ofNames ns) .modified := by
  have hid : next.Stands (ns ++ [a] ++ [n.name]) id := .child hs hp hn
  have hv := h'.isSegment_of_stands hid
  have ⟨type, ht, hpt⟩ := hm
  have event := added_mem_changes (t := .initial) h' hid hn hp fresh
  refine marks_of_event event (PolicyChange.accepts_filter hv rfl hpt ht) ?_
  rw [PolicyChange.ofEvent, PolicyChange.ofAddition_entry h' hn hl he]
  rw [List.append_assoc] at hv ⊢
  simpa using Path.ancestor_ofNames hv

theorem marks_of_removed_entry {q : NodeId} (h : base.WellFormed) (h' : next.WellFormed)
    (hs : base.Stands (ns ++ [a]) p) (hs' : next.Stands (ns ++ [a]) q)
    (hb : base.nodes[id]? = some b) (hp : b.parent = some p) (hname : b.name ≠ Policy.nodeName)
    (hm : base.Matters p) (hl : Policy.listType ∈ next.effectiveTypes .initial q)
    (gone : id ∉ next.nodes) : Marks base next (Path.ofNames ns) .modified := by
  have hid : base.Stands (ns ++ [a] ++ [b.name]) id := .child hs hp hb
  have hv := h.isSegment_of_stands hid
  have ⟨type, ht, hpt⟩ := hm
  have event := removed_mem_changes (t := .initial) h hid hb hp gone
  refine marks_of_event event (PolicyChange.accepts_filter hv rfl hpt ht) ?_
  rw [PolicyChange.ofEvent, PolicyChange.ofRemoval_entry h' hs' (h.isSegment hb hp) rfl hname hl]
  rw [List.append_assoc] at hv ⊢
  simpa using Path.ancestor_ofNames hv

theorem marks_of_changed_entry {kind : EventKind} (h' : next.WellFormed)
    (hs : next.Stands (ns ++ [a, name]) id) (hn : next.nodes[id]? = some n)
    (he : Policy.entryType ∈ next.effectiveTypes .initial id) {property : String}
    (hc : (kind, property) ∈
      changedProperties (base.nodes[id]?.getD (.new n.name n.parent n.primaryType)) n)
    (hk : kind ∈ [.propertyAdded, .propertyChanged, .propertyRemoved])
    (hv : Path.IsSegment property) : Marks base next (Path.ofNames ns) .modified := by
  have hns := h'.isSegment_of_stands hs
  have hp : ∀ m ∈ ns ++ [a, name] ++ [property], Path.IsSegment m := by
    intro m hm
    rcases List.mem_append.1 hm with hm | hm
    · exact hns m hm
    · exact List.mem_singleton.1 hm ▸ hv
  have event := property_mem_changes (t := .initial) h' hs hn hc
  rw [Path.join_ofNames hns] at event
  refine marks_of_event event (PolicyChange.accepts_filter hp rfl he (by simp)) ?_
  have owner : PolicyChange.ofProperty ⟨kind, Path.ofNames (ns ++ [a, name] ++ [property]), id,
      next.effectiveTypes .initial id⟩ = some (Path.ofNames ns, .modified) := by
    rw [PolicyChange.ofProperty_entry he]
    rw [List.append_assoc] at hp ⊢
    simpa using Path.ancestor_ofNames hp
  simp only [List.mem_cons, List.not_mem_nil, or_false] at hk
  rcases hk with rfl | rfl | rfl <;> exact congrArg Except.ok owner

-- What can become of a policy.

-- The policy of a node is one only now, but its node was there before, and so were its entries, as
-- they are.
def OldNodeTurnsPolicy (base next : Store) (owner : NodeId) : Prop :=
  base.policyOf? .initial owner = none ∧
    ∃ policy ∈ base.nodes, next.policyOf? .initial owner = some policy ∧
      ∀ entry ∈ next.entriesOf .initial policy, entry ∈ base.nodes ∧
        base.entryContent .initial entry = next.entryContent .initial entry

-- An entry of a policy is gone whose node had the name of a policy itself.
def NamesakeGoes (base next : Store) (owner : NodeId) : Prop :=
  ∃ policy entry n, base.policyOf? .initial owner = some policy ∧
    entry ∈ base.entriesOf .initial policy ∧ base.nodes[entry]? = some n ∧
    n.name = Policy.nodeName ∧ entry ∉ next.nodes

theorem policyOf_kept (h : base.WellFormed) (h' : next.WellFormed) (f : Follows base next)
    (hb : base.nodes[o]? = some b) (hn : next.nodes[o]? = some n)
    (hp : base.policyOf? .initial o = some p) (hk : p ∈ next.nodes) :
    next.policyOf? .initial o = some p := by
  have ⟨hm, hl, pn, hpn, hparent, hname⟩ := (policyOf_eq_some_iff h hb).1 hp
  have ⟨pn', hpn'⟩ := mem_nodes_iff.1 hk
  have ⟨hname', hparent', _⟩ := f.node hpn hpn'
  exact (policyOf_eq_some_iff h' hn).2 ⟨f.mem_effectiveTypes hb hn hm,
    f.mem_effectiveTypes hpn hpn' hl, pn', hpn', hparent'.trans hparent, hname'.trans hname⟩

theorem mem_entriesOf (h : base.WellFormed) (hp : base.nodes[p]? = some b) :
    id ∈ base.entriesOf .initial p ↔ Policy.entryType ∈ base.effectiveTypes .initial id ∧
      ∃ n, base.nodes[id]? = some n ∧ n.parent = some p := by
  have child : id ∈ b.children ↔ ∃ n, base.nodes[id]? = some n ∧ n.parent = some p := by
    refine ⟨h.child hp, fun ⟨n, hn, hnp⟩ => ?_⟩
    have ⟨b', hb', hc⟩ := h.listed hn hnp
    rwa [Option.some_inj.1 (hp.symm.trans hb')]
  simp [entriesOf, hp, child, and_comm]

-- A node that is a policy and an entry at once is so by a mixin.
theorem marks_of_new_entry (h' : next.WellFormed) (hs : next.Stands (ns ++ [a]) p)
    (hn : next.nodes[id]? = some n) (hp : n.parent = some p) (hm : next.Matters p)
    (he : Policy.entryType ∈ next.effectiveTypes .initial id) (fresh : id ∉ base.nodes) :
    Marks base next (Path.ofNames ns) .modified := by
  by_cases hl : Policy.listType ∈ next.effectiveTypes .initial id
  case neg => exact marks_of_added_entry h' hs hn hp hm hl he fresh
  case pos =>
    have mixed : ([] : List String) ≠ n.mixins := by
      intro hc
      rw [mem_effectiveTypes hn, NodeTypes.mem_initial_expand] at he hl
      simp only [Node.types, ← hc, List.mem_singleton, Policy.listType, Policy.entryType] at he hl
      rcases hl with hl | hl
      · simp [← hl] at he
      · simp at hl
    have ⟨kind, hc, hk⟩ := exists_changed_mixins
      (b := base.nodes[id]?.getD (.new n.name n.parent n.primaryType)) (n := n)
      (by simpa [Std.ExtTreeMap.getElem?_eq_none fresh, Node.new] using mixed)
    have hs : next.Stands (ns ++ [a, n.name]) id := by simpa using Stands.child hs hp hn
    exact marks_of_changed_entry h' hs hn he hc hk isSegment_mixinProperty

theorem names_or_unchanged (h : base.WellFormed) (h' : next.WellFormed)
    (hs : next.Stands (ns ++ [a]) p) (hb : base.nodes[id]? = some b)
    (hn : next.nodes[id]? = some n) (hp : n.parent = some p)
    (he : Policy.entryType ∈ next.effectiveTypes .initial id) :
    Names base next (Path.ofNames ns) ∨ b.mixins = n.mixins ∧ b.properties = n.properties := by
  have hs : next.Stands (ns ++ [a, n.name]) id := by simpa using Stands.child hs hp hn
  have before : base.nodes[id]?.getD (.new n.name n.parent n.primaryType) = b := by simp [hb]
  by_cases hm : b.mixins = n.mixins
  case neg =>
    have ⟨kind, hc, hk⟩ := exists_changed_mixins hm
    have marks := marks_of_changed_entry h' hs hn he (before ▸ hc) hk isSegment_mixinProperty
    exact .inl marks.names
  case pos =>
    by_cases hp : b.properties = n.properties
    case pos => exact .inr ⟨hm, hp⟩
    case neg =>
      have ⟨kind, property, hc, hk, there⟩ := exists_changed_property hp
      have hv := there.elim (h.properties hb) (h'.properties hn)
      have hv := Path.isSegment_of_validateName hv.valid
      exact .inl (marks_of_changed_entry h' hs hn he (before ▸ hc) hk hv).names

theorem names_or_kept (h : base.WellFormed) (h' : next.WellFormed) (f : Follows base next)
    (hs : next.Stands (ns ++ [a]) p) (hm : next.Matters p)
    (he : id ∈ next.entriesOf .initial p) :
    Names base next (Path.ofNames ns) ∨ id ∈ base.nodes ∧
      Policy.entryType ∈ base.effectiveTypes .initial id ∧
      base.entryContent .initial id = next.entryContent .initial id := by
  obtain ⟨pn, hpn⟩ := h'.mem_of_stands hs
  obtain ⟨het, n, hn, hp⟩ := (mem_entriesOf h' hpn).1 he
  by_cases old : id ∈ base.nodes
  case neg => exact .inl (marks_of_new_entry h' hs hn hp hm het old).names
  case pos =>
    obtain ⟨b, hb⟩ := mem_nodes_iff.1 old
    refine (names_or_unchanged h h' hs hb hn hp het).imp_right fun ⟨hmixins, hprops⟩ => ?_
    obtain ⟨hname, hparent, htype, _⟩ := f.node hb hn
    have htypes : base.effectiveTypes .initial id = next.effectiveTypes .initial id := by
      simp [effectiveTypes, hb, hn, Node.types, hmixins, htype]
    obtain ⟨ms, hms⟩ := h.stands hb
    refine ⟨old, htypes ▸ het, ?_⟩
    simp [entryContent, htypes, hb, hn, hprops, h.handle_eq hms, h'.handle_eq (f.stands h' hms hn)]

theorem names_of_entriesOf_ne (h : base.WellFormed) (h' : next.WellFormed) (f : Follows base next)
    (hs : base.Stands (ns ++ [a]) p) (hs' : next.Stands (ns ++ [a]) p)
    (hl : Policy.listType ∈ base.effectiveTypes .initial p)
    (ne : (base.entriesOf .initial p).map (base.entryContent .initial) ≠
      (next.entriesOf .initial p).map (next.entryContent .initial)) :
    Names base next (Path.ofNames ns) ∨ ∃ e ∈ base.entriesOf .initial p, ∃ n,
      base.nodes[e]? = some n ∧ n.name = Policy.nodeName ∧ e ∉ next.nodes := by
  by_contra hc
  push Not at hc
  obtain ⟨silent, kept⟩ := hc
  obtain ⟨b, hb⟩ := h.mem_of_stands hs
  obtain ⟨n, hn⟩ := h'.mem_of_stands hs'
  have hl' := f.mem_effectiveTypes hb hn hl
  -- What is an entry now was there and was the same entry.
  have same {e : NodeId} (he : e ∈ next.entriesOf .initial p) :=
    (names_or_kept h h' f hs' ⟨_, by simp, hl'⟩ he).resolve_left silent
  -- What was an entry is still there and still is one.
  have stays {e : NodeId} (he : e ∈ base.entriesOf .initial p) : e ∈ next.entriesOf .initial p := by
    obtain ⟨het, eb, heb, hep⟩ := (mem_entriesOf h hb).1 he
    have there : e ∈ next.nodes := by
      by_cases hname : eb.name = Policy.nodeName
      case pos => exact kept e he eb heb hname
      case neg =>
        by_contra gone
        have marks := marks_of_removed_entry h h' hs hs' heb hep hname ⟨_, by simp, hl⟩ hl' gone
        exact silent marks.names
    obtain ⟨en, hen⟩ := mem_nodes_iff.1 there
    obtain ⟨_, hparent, _⟩ := f.node heb hen
    exact (mem_entriesOf h' hn).2 ⟨f.mem_effectiveTypes heb hen het, en, hen, hparent.trans hep⟩
  have entries : next.entriesOf .initial p = base.entriesOf .initial p := by
    calc next.entriesOf .initial p
      _ = (n.children.filter (· ∈ base.nodes)).filter
          (Policy.entryType ∈ next.effectiveTypes .initial ·) := by
        rw [List.filter_filter, entriesOf, hn]
        refine List.filter_congr fun e he => ?_
        have := fun het => (same ((mem_entriesOf h' hn).2 ⟨het, h'.child hn he⟩)).1
        by_cases het : Policy.entryType ∈ next.effectiveTypes .initial e <;> simp_all
      _ = (b.children.filter (· ∈ next.nodes)).filter
          (Policy.entryType ∈ next.effectiveTypes .initial ·) := by rw [f.children hb hn]
      _ = base.entriesOf .initial p := by
        rw [List.filter_filter, entriesOf, hb]
        refine List.filter_congr fun e he => ?_
        have child := h.child hb he
        rw [Bool.eq_iff_iff, Bool.and_eq_true, decide_eq_true_iff, decide_eq_true_iff,
          decide_eq_true_iff]
        constructor
        case mp =>
          rintro ⟨het, there⟩
          obtain ⟨en, hen⟩ := mem_nodes_iff.1 there
          obtain ⟨eb, heb, hep⟩ := child
          obtain ⟨_, hparent, _⟩ := f.node heb hen
          exact (same ((mem_entriesOf h' hn).2 ⟨het, en, hen, hparent.trans hep⟩)).2.1
        case mpr =>
          intro het
          obtain ⟨het', en, hen, _⟩ := (mem_entriesOf h' hn).1
            (stays ((mem_entriesOf h hb).2 ⟨het, child⟩))
          exact ⟨het', mem_nodes_iff.2 ⟨en, hen⟩⟩
  refine ne ?_
  rw [entries]
  exact List.map_congr_left fun e he => (same (stays he)).2.2

theorem names_of_policyContent_ne (h : base.WellFormed) (h' : next.WellFormed)
    (f : Follows base next) (hs : base.Stands ns o) (hs' : next.Stands ns o)
    (ne : base.policyContent .initial o ≠ next.policyContent .initial o) :
    Names base next (Path.ofNames ns) ∨ OldNodeTurnsPolicy base next o ∨
      NamesakeGoes base next o ∧ Names base next (Path.ofNames (ns ++ [Policy.nodeName])) := by
  have ⟨b, hb⟩ := h.mem_of_stands hs
  have ⟨n, hn⟩ := h'.mem_of_stands hs'
  cases hp : base.policyOf? .initial o
  case none =>
    cases hq : next.policyOf? .initial o
    case none => simp [policyContent, hp, hq] at ne
    case some q =>
      have ⟨hm, hl, qn, hqn, hparent, hname⟩ := (policyOf_eq_some_iff h' hn).1 hq
      by_cases old : q ∈ base.nodes
      case neg =>
        exact .inl (marks_of_added_policy h' hs' hqn hparent ⟨_, by simp, hm⟩ hl old).names
      case pos =>
        by_cases silent : Names base next (Path.ofNames ns)
        case pos => exact .inl silent
        case neg =>
          refine .inr (.inl ⟨hp, q, old, hq, fun e he => ?_⟩)
          have hsq : next.Stands (ns ++ [qn.name]) q := .child hs' hparent hqn
          have kept := (names_or_kept h h' f hsq ⟨_, by simp, hl⟩ he).resolve_left silent
          exact ⟨kept.1, kept.2.2⟩
  case some p =>
    have ⟨hm, hl, pn, hpn, hparent, hname⟩ := (policyOf_eq_some_iff h hb).1 hp
    by_cases kept : p ∈ next.nodes
    case neg =>
      exact .inl (marks_of_removed_policy h hs hpn hparent hname ⟨_, by simp, hm⟩ kept).names
    case pos =>
      have hq := policyOf_kept h h' f hb hn hp kept
      have ⟨pn', hpn'⟩ := mem_nodes_iff.1 kept
      have hsp : base.Stands (ns ++ [pn.name]) p := .child hs hparent hpn
      have hsp' := f.stands h' hsp hpn'
      have ne : (base.entriesOf .initial p).map (base.entryContent .initial) ≠
          (next.entriesOf .initial p).map (next.entryContent .initial) := by
        simpa [policyContent, hp, hq] using ne
      rcases names_of_entriesOf_ne h h' f hsp hsp' hl ne with
        hnames | ⟨e, he, en, hen, hname', gone⟩
      · exact .inl hnames
      · have ⟨_, en', hen', hep⟩ := (mem_entriesOf h hpn).1 he
        obtain rfl := Option.some_inj.1 (hen.symm.trans hen')
        refine .inr (.inr ⟨⟨p, e, en, hp, he, hen, hname', gone⟩, ?_⟩)
        exact hname ▸ (marks_of_removed_policy h hsp hen hep hname' ⟨_, by simp, hl⟩ gone).names

theorem names_of_load_ne {r : Registry} {owner owner' : NodeHandle} (h : base.WellFormed)
    (h' : next.WellFormed) (f : Follows base next) (ho : base.handle? o = some owner)
    (ho' : next.handle? o = some owner')
    (ne : Policy.load (base.view .initial) r owner ≠ Policy.load (next.view .initial) r owner')
    (hnew : ¬OldNodeTurnsPolicy base next o) :
    Names base next owner.path ∨
      NamesakeGoes base next o ∧ Names base next (Path.join owner.path Policy.nodeName) := by
  obtain ⟨rfl, ns, hs, hp⟩ := h.handle_eq_some_iff.1 ho
  obtain ⟨hid, ms, hs', hp'⟩ := h'.handle_eq_some_iff.1 ho'
  have ⟨b, hb⟩ := h.mem_of_stands hs
  have ⟨n, hn⟩ := h'.mem_of_stands hs'
  obtain rfl := h'.stands_unique (f.stands h' hs hn) hs'
  obtain rfl : owner' = owner := by
    cases owner
    cases owner'
    simp_all
  have content : base.policyContent .initial owner'.id ≠
      next.policyContent .initial owner'.id :=
    fun hc => ne (Policy.load_congr h h' hb hn hc)
  rw [hp', Path.join_ofNames (h.isSegment_of_stands hs)]
  exact (names_of_policyContent_ne h h' f hs hs' content).imp_right fun hn => hn.resolve_left hnew

end PolicyTree.Store
