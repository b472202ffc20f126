import Mathlib.Tactic.Common
import PolicyTree.Policy.Storage
import PolicyTree.Proofs.Tree.Reading

namespace PolicyTree

namespace Store

def policyOf? (s : Store) (t : NodeTypes) (owner : NodeId) : Option NodeId :=
  if Policy.mixin ∈ s.effectiveTypes t owner then
    (s.child? owner Policy.nodeName).filter (Policy.listType ∈ s.effectiveTypes t ·)
  else none

def entriesOf (s : Store) (t : NodeTypes) (policy : NodeId) : List NodeId :=
  (s.nodes[policy]?.elim [] (·.children)).filter (Policy.entryType ∈ s.effectiveTypes t ·)

structure EntryContent where
  handle     : Option NodeHandle
  properties : Std.ExtTreeMap String Value
  isAllow    : Bool

def entryContent (s : Store) (t : NodeTypes) (entry : NodeId) : EntryContent where
  handle     := s.handle? entry
  properties := s.nodes[entry]?.elim ∅ (·.properties)
  isAllow    := Policy.allowType ∈ s.effectiveTypes t entry

def policyContent (s : Store) (t : NodeTypes) (owner : NodeId) : Option (List EntryContent) :=
  (s.policyOf? t owner).map fun policy => (s.entriesOf t policy).map (s.entryContent t)

theorem policyOf_eq_some_iff {s : Store} {t : NodeTypes} {owner policy : NodeId} {n : Node}
    (h : s.WellFormed) (hn : s.nodes[owner]? = some n) : s.policyOf? t owner = some policy ↔
      Policy.mixin ∈ s.effectiveTypes t owner ∧
      Policy.listType ∈ s.effectiveTypes t policy ∧
      ∃ pn, s.nodes[policy]? = some pn ∧ pn.parent = some owner ∧ pn.name = Policy.nodeName := by
  rw [policyOf?, ← h.child_eq_some_iff hn]
  split
  case isTrue hm => simp [hm, Option.filter_eq_some_iff, and_comm]
  case isFalse hm => simp [hm]

theorem entry_exists {s : Store} {t : NodeTypes} {policy entry : NodeId} (h : s.WellFormed)
    (he : entry ∈ s.entriesOf t policy) : ∃ n, s.nodes[entry]? = some n := by
  have hc := (List.mem_filter.1 he).1
  cases hp : s.nodes[policy]?
  case none    => simp [hp] at hc
  case some pn => exact (h.child hp (by simpa [hp] using hc)).imp fun _ hm => hm.1

end Store

namespace Policy

variable {s s' : Store} {t : NodeTypes} {r : Registry} {o e : NodeHandle} {n n' : Node}

theorem readEntry_congr {tree tree' : TreeView}
    (property : ∀ name, tree.property e name = tree'.property e name)
    (names : tree.propertyNames e = tree'.propertyNames e)
    (allow : tree.isType e allowType = tree'.isType e allowType) :
    readEntry tree r o e = readEntry tree' r o e := by
  simp [readEntry, required, readRestrictions, property, names, allow]

theorem node_eq (h : s.WellFormed) (hn : s.nodes[o.id]? = some n) :
    node? (s.view t) o = .ok ((s.policyOf? t o.id).bind s.handle?) := by
  rw [node?, Store.view_isType hn, Store.view_child hn, Store.policyOf?]
  by_cases hm : mixin ∈ s.effectiveTypes t o.id
  case neg => simp [hm, bind, Except.bind, pure, Except.pure]
  case pos =>
    cases hc : s.child? o.id nodeName
    case none => simp [hm, bind, Except.bind, pure, Except.pure]
    case some c =>
      have ⟨cn, hcn, _⟩ := (h.child_eq_some_iff hn).1 hc
      have ⟨ns, hs⟩ := h.stands hcn
      have ht : (s.view t).isType ⟨c, Path.ofNames ns⟩ listType = _ := Store.view_isType hcn
      by_cases hl : listType ∈ s.effectiveTypes t c <;>
        simp [hm, hl, ht, h.handle_eq hs, bind, Except.bind, pure, Except.pure, Option.filter]

-- What a policy takes from one child of its node.
def takeChild (tree : TreeView) (r : Registry) (o : NodeHandle) (p : Policy) (e : NodeHandle) :
    Except AccessError Policy := do
  if !(← tree.isType e entryType) then return p
  return p.add (← readEntry tree r o e)

theorem takeChild_of_isType {tree : TreeView} {p : Policy} {isEntry : Bool}
    (ht : tree.isType e entryType = .ok isEntry) :
    takeChild tree r o p e = if isEntry then p.add <$> readEntry tree r o e else .ok p := by
  rw [takeChild, ht]
  cases isEntry
  case false => rfl
  case true =>
    show (readEntry tree r o e >>= fun entry => pure (p.add entry)) = _
    simp

-- Children that are no entries are passed over.
theorem foldlM_takeChild {l : List NodeId} {p : Policy} (h : s.WellFormed)
    (hl : ∀ c ∈ l, ∃ m, s.nodes[c]? = some m) :
    (l.filterMap s.handle?).foldlM (takeChild (s.view t) r o) p =
      ((l.filter (entryType ∈ s.effectiveTypes t ·)).filterMap s.handle?).foldlM
        (fun p e => p.add <$> readEntry (s.view t) r o e) p := by
  induction l generalizing p
  case nil => rfl
  case cons c l hi =>
    have ⟨m, hm⟩ := hl c (by simp)
    have ⟨ns, hs⟩ := h.stands hm
    have hi {p : Policy} := hi (p := p) fun c hc => hl c (by simp [hc])
    have ht : (s.view t).isType ⟨c, Path.ofNames ns⟩ entryType = _ := Store.view_isType hm
    have take {p : Policy} := takeChild_of_isType (r := r) (o := o) (p := p) ht
    by_cases he : entryType ∈ s.effectiveTypes t c
    case neg =>
      simp only [List.filterMap_cons, h.handle_eq hs, List.foldlM_cons, take, he]
      simpa [bind, Except.bind, he] using hi
    case pos =>
      simp only [List.filterMap_cons, h.handle_eq hs, List.foldlM_cons, take, he, hi,
        List.filter_cons_of_pos, decide_true, if_true]

theorem load_eq (h : s.WellFormed) (hn : s.nodes[o.id]? = some n) :
    load (s.view t) r o = match s.policyOf? t o.id with
      | none => .ok none
      | some policy => some <$> ((s.entriesOf t policy).filterMap s.handle?).foldlM
          (fun p e => p.add <$> readEntry (s.view t) r o e) (empty o) := by
  show (liftM (node? (s.view t) o) >>= _) = _
  rw [node_eq h hn]
  cases hp : s.policyOf? t o.id
  case none => rfl
  case some policy =>
    obtain ⟨_, _, pn, hpn, _⟩ := (Store.policyOf_eq_some_iff h hn).1 hp
    obtain ⟨ns, hs⟩ := h.stands hpn
    have hc := h.view_children (t := t) (o := ⟨policy, Path.ofNames ns⟩) hpn
    have hf := foldlM_takeChild (t := t) (r := r) (o := o) (p := empty o) h
      fun c hc => (h.child hpn hc).imp fun _ hm => hm.1
    have he : s.entriesOf t policy =
        pn.children.filter (entryType ∈ s.effectiveTypes t ·) := by
      simp [Store.entriesOf, hpn]
    simp only [Option.bind_some, h.handle_eq hs, he]
    rw [← hf]
    show (liftM ((s.view t).children ⟨policy, Path.ofNames ns⟩) >>= fun children =>
      children.foldlM (takeChild (s.view t) r o) (empty o) >>= fun p => pure (some p)) = _
    rw [hc]
    show ((pn.children.filterMap s.handle?).foldlM (takeChild (s.view t) r o) (empty o) >>=
      fun p => pure (some p)) = _
    cases (pn.children.filterMap s.handle?).foldlM (takeChild (s.view t) r o) (empty o) <;> rfl

-- Policies with the same content are read alike, whatever else is in the tree.
theorem foldlM_readEntry_congr {l l' : List NodeId} {p : Policy} (h : s.WellFormed)
    (hl : ∀ e ∈ l, ∃ m, s.nodes[e]? = some m) (hl' : ∀ e ∈ l', ∃ m, s'.nodes[e]? = some m)
    (same : l.map (s.entryContent t) = l'.map (s'.entryContent t)) :
    (l.filterMap s.handle?).foldlM (fun p e => p.add <$> readEntry (s.view t) r o e) p =
      (l'.filterMap s'.handle?).foldlM (fun p e => p.add <$> readEntry (s'.view t) r o e)
        p := by
  induction l generalizing l' p
  case nil =>
    obtain rfl : l' = [] := by simpa using same.symm
    rfl
  case cons e l hi =>
    cases l'
    case nil => simp at same
    case cons e' l' =>
      rw [List.map_cons, List.map_cons, List.cons.injEq] at same
      have ⟨m, hm⟩ := hl e (by simp)
      have ⟨m', hm'⟩ := hl' e' (by simp)
      have ⟨ns, hs⟩ := h.stands hm
      have handle := h.handle_eq hs
      have ⟨handle', properties, allow⟩ := Store.EntryContent.mk.inj same.1
      rw [handle] at handle'
      have he : e = e' := by
        have ⟨_, _, ho⟩ := Option.map_eq_some_iff.1 handle'.symm
        simpa using (congrArg NodeHandle.id ho).symm
      subst he
      have hprops : m.properties = m'.properties := by simpa [hm, hm'] using properties
      have read : readEntry (s.view t) r o ⟨e, Path.ofNames ns⟩ = readEntry (s'.view t) r o _ :=
        readEntry_congr
        (fun name => by rw [Store.view_property hm, Store.view_property hm', hprops])
        (by rw [Store.view_propertyNames hm, Store.view_propertyNames hm', hprops])
        (by rw [Store.view_isType hm, Store.view_isType hm']; exact congrArg _ allow)
      have rest {p : Policy} := hi (p := p) (fun e he => hl e (by simp [he]))
        (fun e he => hl' e (by simp [he])) same.2
      simp only [List.filterMap_cons, handle, ← handle', List.foldlM_cons, read, rest]

theorem load_congr (h : s.WellFormed) (h' : s'.WellFormed) (hn : s.nodes[o.id]? = some n)
    (hn' : s'.nodes[o.id]? = some n')
    (same : s.policyContent t o.id = s'.policyContent t o.id) :
    load (s.view t) r o = load (s'.view t) r o := by
  rw [load_eq h hn, load_eq h' hn']
  unfold Store.policyContent at same
  cases hp : s.policyOf? t o.id <;> cases hp' : s'.policyOf? t o.id <;>
    simp only [hp, hp', Option.map_none, Option.map_some, reduceCtorEq, Option.some.injEq] at same
  case none.none => rfl
  case some.some =>
    simp only
    rw [foldlM_readEntry_congr h (fun _ => Store.entry_exists h) (fun _ => Store.entry_exists h')
      same]

end Policy

end PolicyTree
