import Mathlib.Tactic.Common
import PolicyTree.Policy.Storage
import PolicyTree.Proofs.Tree.Following
import PolicyTree.Proofs.Tree.Reading
import PolicyTree.Proofs.Types

namespace PolicyTree

namespace Policy

-- The types that make a node access control content.
def contentTypes : List String := [listType, entryType, allowType, denyType]

end Policy

namespace Store

open Policy

variable {s s' s'' : Store} {id p x : NodeId} {n n' : Node} {name type : String}

def IsList (s : Store) (id : NodeId) : Prop := listType ∈ s.effectiveTypes .initial id

def IsEntry (s : Store) (id : NodeId) : Prop := entryType ∈ s.effectiveTypes .initial id

def IsContent (s : Store) (id : NodeId) : Prop := s.IsList id ∨ s.IsEntry id

def IsControlled (s : Store) (id : NodeId) : Prop := mixin ∈ s.effectiveTypes .initial id

instance : Decidable (s.IsList id) := inferInstanceAs (Decidable (_ ∈ _))

instance : Decidable (s.IsEntry id) := inferInstanceAs (Decidable (_ ∈ _))

instance : Decidable (s.IsContent id) := inferInstanceAs (Decidable (_ ∨ _))

-- A mixin that makes a node no access control content.
theorem mem_types_of_addMixin {mixin : String} (plain : mixin ∉ contentTypes)
    (ht : type ∈ contentTypes) (h : type ∈ Node.types
      { n with mixins := if mixin ∈ n.mixins then n.mixins else n.mixins ++ [mixin] }) :
    type ∈ n.types := by
  rcases List.mem_cons.1 h with rfl | h
  · exact List.mem_cons_self
  · refine List.mem_cons_of_mem _ ?_
    dsimp only at h
    split at h
    · exact h
    · refine (List.mem_append.1 h).resolve_right fun h => plain ?_
      exact List.mem_singleton.1 h ▸ ht

theorem IsContent.exists (h : s.IsContent id) : ∃ n, s.nodes[id]? = some n :=
  h.elim exists_of_mem_effectiveTypes exists_of_mem_effectiveTypes

theorem isList_iff (hn : s.nodes[id]? = some n) : s.IsList id ↔ listType ∈ n.types := by
  rw [IsList, mem_effectiveTypes hn, NodeTypes.mem_initial_expand]
  simp [listType]

theorem isEntry_iff (hn : s.nodes[id]? = some n) :
    s.IsEntry id ↔ entryType ∈ n.types ∨ allowType ∈ n.types ∨ denyType ∈ n.types := by
  rw [IsEntry, mem_effectiveTypes hn, NodeTypes.mem_initial_expand]
  simp [entryType, allowType, denyType]

theorem isContent_iff (hn : s.nodes[id]? = some n) :
    s.IsContent id ↔ ∃ t ∈ contentTypes, t ∈ n.types := by
  simp [IsContent, isList_iff hn, isEntry_iff hn, contentTypes]

theorem not_content_initial (h : type ∉ contentTypes) : ¬(Store.initial id type).IsContent x := by
  intro hc
  obtain ⟨n, hn⟩ := hc.exists
  obtain ⟨t, ht, htn⟩ := (isContent_iff hn).1 hc
  simp only [Store.initial, Std.ExtTreeMap.getElem?_insert] at hn
  split at hn
  case isFalse => simp at hn
  case isTrue =>
    obtain rfl := Option.some_inj.1 hn
    obtain rfl : t = type := by simpa [Node.types, Node.new] using htn
    exact h ht

-- What was kept from one tree to another is access control content only if it was before.
structure KeepsKinds (s s' : Store) : Prop where
  list  : ∀ {x : NodeId}, x ∈ s.nodes → s'.IsList x → s.IsList x
  entry : ∀ {x : NodeId}, x ∈ s.nodes → s'.IsEntry x → s.IsEntry x

namespace KeepsKinds

theorem refl : KeepsKinds s s := ⟨fun _ => id, fun _ => id⟩

theorem of_types (h : ∀ {x : NodeId} {n n' : Node}, s.nodes[x]? = some n → s'.nodes[x]? = some n' →
    ∀ t ∈ contentTypes, t ∈ n'.types → t ∈ n.types) : KeepsKinds s s' where
  list hx hl := by
    have ⟨n, hn⟩ := mem_nodes_iff.1 hx
    have ⟨n', hn'⟩ := exists_of_mem_effectiveTypes hl
    exact (isList_iff hn).2 (h hn hn' _ (by simp [contentTypes]) ((isList_iff hn').1 hl))
  entry hx he := by
    have ⟨n, hn⟩ := mem_nodes_iff.1 hx
    have ⟨n', hn'⟩ := exists_of_mem_effectiveTypes he
    refine (isEntry_iff hn).2 (((isEntry_iff hn').1 he).imp ?_ (Or.imp ?_ ?_)) <;>
      exact h hn hn' _ (by simp [contentTypes])

theorem content (h : KeepsKinds s s') (hx : x ∈ s.nodes) (hc : s'.IsContent x) : s.IsContent x :=
  hc.imp (h.list hx) (h.entry hx)

theorem trans (h : KeepsKinds s s') (h' : KeepsKinds s' s'') (there : ∀ {x : NodeId},
    x ∈ s.nodes → x ∈ s''.nodes → x ∈ s'.nodes) : KeepsKinds s s'' where
  list hx hl :=
    h.list hx (h'.list (there hx (mem_nodes_iff.2 (exists_of_mem_effectiveTypes hl))) hl)
  entry hx he :=
    h.entry hx (h'.entry (there hx (mem_nodes_iff.2 (exists_of_mem_effectiveTypes he))) he)

theorem added (ha : Added s s' id p name type) : KeepsKinds s s' :=
  of_types fun {x n n'} hn hn' t _ ht => by
    have : x ≠ id := by
      rintro rfl
      simp [ha.fresh] at hn
    simp only [ha.nodes, this, if_false, hn, Option.map_some, Option.some.injEq] at hn'
    obtain rfl := hn'
    exact ht

theorem removed (hr : Removed s s' id p) : KeepsKinds s s' :=
  of_types fun {x n n'} hn hn' t _ ht => by
    rw [hr.nodes, hn] at hn'
    split at hn'
    · simp at hn'
    · obtain rfl := Option.some_inj.1 hn'
      exact ht

theorem edited {edit : Node → Node} (he : Edited s s' id edit)
    (h : ∀ n, s.nodes[id]? = some n → ∀ t ∈ contentTypes, t ∈ (edit n).types → t ∈ n.types) :
    KeepsKinds s s' :=
  of_types fun {x n n'} hn hn' t hc ht => by
    rw [he.nodes, hn] at hn'
    obtain rfl := Option.some_inj.1 hn'
    split at ht
    case isTrue hx  => exact h n (hx ▸ hn) t hc ht
    case isFalse    => exact ht

end KeepsKinds

structure Placed (s : Store) (id : NodeId) (n : Node) : Prop where
  list  : s.IsList id → n.name = nodeName ∧ ∃ o, n.parent = some o ∧ s.IsControlled o
  entry : s.IsEntry id → n.name ≠ nodeName ∧ ∃ p, n.parent = some p ∧ s.IsList p
  below : ∀ p, n.parent = some p → s.IsContent p → s.IsContent id

-- A new node of a type may be put under a name where its kind belongs.
structure Fits (s : Store) (p : NodeId) (name type : String) : Prop where
  list  : type = listType → name = nodeName ∧ s.IsControlled p
  entry : type ∈ [entryType, allowType, denyType] → name ≠ nodeName ∧ s.IsList p
  below : s.IsContent p → type ∈ contentTypes

theorem Fits.of_plain (outside : ¬s.IsContent p) (plain : type ∉ contentTypes) :
    s.Fits p name type := by
  have other {types : List String} (h : types ⊆ contentTypes) : type ∉ types :=
    fun ht => plain (h ht)
  exact ⟨fun hl => absurd (List.mem_singleton.2 hl) (other (by decide)),
    fun he => absurd he (other (by decide)), fun hc => absurd hc outside⟩

structure InPlace (s : Store) : Prop where
  placed : ∀ {id : NodeId} {n : Node}, s.nodes[id]? = some n → s.Placed id n

namespace InPlace

theorem initial (h : type ∉ contentTypes) : (Store.initial id type).InPlace := by
  refine ⟨fun {x n} hn => ?_⟩
  have root : n.parent = none := by
    simp only [Store.initial, Std.ExtTreeMap.getElem?_insert] at hn
    split at hn
    case isFalse => simp at hn
    case isTrue  => exact Option.some_inj.1 hn ▸ rfl
  exact ⟨fun hl => absurd (.inl hl) (not_content_initial h),
    fun he => absurd (.inr he) (not_content_initial h), fun _ hp => by simp [root] at hp⟩

theorem list_not_entry (h : s.InPlace) (hl : s.IsList id) : ¬s.IsEntry id := by
  intro he
  have ⟨n, hn⟩ := exists_of_mem_effectiveTypes hl
  exact ((h.placed hn).entry he).1 ((h.placed hn).list hl).1

-- What is new has to be looked at, and the rest stays where it was.
theorem follow (h : s.InPlace) (wf : s.WellFormed) (wf' : s'.WellFormed) (f : Follows s s')
    (kinds : KeepsKinds s s')
    (new : ∀ {x : NodeId} {n : Node}, x ∉ s.nodes → s'.nodes[x]? = some n → s'.Placed x n) :
    s'.InPlace := by
  refine ⟨fun {id n'} hn' => ?_⟩
  by_cases hid : id ∈ s.nodes
  case neg => exact new hid hn'
  case pos =>
    have ⟨n, hn⟩ := mem_nodes_iff.1 hid
    have ⟨hname, hparent, _⟩ := f.node hn hn'
    have old := h.placed hn
    -- The parent of a node that was there was there too.
    have above {p : NodeId} (hp : n.parent = some p) :
        (∃ m, s.nodes[p]? = some m) ∧ ∃ m', s'.nodes[p]? = some m' :=
      ⟨(wf.listed hn hp).imp fun _ hm => hm.1,
        (wf'.listed hn' (hparent.trans hp)).imp fun _ hm => hm.1⟩
    refine ⟨fun hl => ?_, fun he => ?_, fun p hp hc => ?_⟩
    · have ⟨hnn, o, ho, hc⟩ := old.list (kinds.list hid hl)
      have ⟨⟨_, hm⟩, _, hm'⟩ := above ho
      exact ⟨hname.trans hnn, o, hparent.trans ho, f.mem_effectiveTypes hm hm' hc⟩
    · have ⟨hnn, p, hp, hl⟩ := old.entry (kinds.entry hid he)
      have ⟨⟨_, hm⟩, _, hm'⟩ := above hp
      exact ⟨hname ▸ hnn, p, hparent.trans hp, f.mem_effectiveTypes hm hm' hl⟩
    · rw [hparent] at hp
      have ⟨⟨_, hm⟩, _⟩ := above hp
      exact (old.below p hp (kinds.content (mem_nodes_iff.2 ⟨_, hm⟩) hc)).imp
        (f.mem_effectiveTypes hn hn') (f.mem_effectiveTypes hn hn')

theorem added (h : s.InPlace) (wf : s.WellFormed) (ha : Added s s' id p name type)
    (fits : s.Fits p name type) : s'.InPlace := by
  have wf' := wf.added ha
  have f := Follows.written wf (.added ha)
  refine h.follow wf wf' f (.added ha) fun {x n} hx hn => ?_
  obtain rfl := (ha.mem (mem_nodes_iff.2 ⟨n, hn⟩)).resolve_left hx
  have hnew : n = .new name (some p) type := by simpa [ha.nodes, eq_comm] using hn
  subst hnew
  obtain ⟨pn, hpn⟩ := ha.parent
  obtain ⟨pn', hpn', _⟩ := wf'.listed hn rfl
  have types {t : String} : t ∈ (Node.new name (some p) type).types ↔ t = type := by
    simp [Node.types, Node.new]
  refine ⟨fun hl => ?_, fun he => ?_, fun q hq hc => ?_⟩
  · obtain ⟨hname, hc⟩ := fits.list (types.1 ((isList_iff hn).1 hl)).symm
    exact ⟨hname, p, rfl, f.mem_effectiveTypes hpn hpn' hc⟩
  · have ht : type ∈ [entryType, allowType, denyType] := by
      simpa [types, eq_comm] using (isEntry_iff hn).1 he
    obtain ⟨hname, hl⟩ := fits.entry ht
    exact ⟨hname, p, rfl, f.mem_effectiveTypes hpn hpn' hl⟩
  · obtain rfl := Option.some_inj.1 hq
    have ht := fits.below ((KeepsKinds.added ha).content (mem_nodes_iff.2 ⟨pn, hpn⟩) hc)
    exact (isContent_iff hn).2 ⟨type, ht, types.2 rfl⟩

theorem removed (h : s.InPlace) (wf : s.WellFormed) (hr : Removed s s' id p) : s'.InPlace :=
  h.follow wf (wf.removed hr) (.written wf (.removed hr : Written s s' id)) (.removed hr)
    fun hx hn => absurd (hr.mem (mem_nodes_iff.2 ⟨_, hn⟩)) hx

theorem edited {edit : Node → Node} (h : s.InPlace) (wf : s.WellFormed) (he : Edited s s' id edit)
    (kinds : KeepsKinds s s') : s'.InPlace :=
  h.follow wf (wf.edited he) (.written wf (.edited he : Written s s' id)) kinds fun hx hn =>
    absurd (he.mem (mem_nodes_iff.2 ⟨_, hn⟩)) hx

end InPlace

end Store

end PolicyTree
