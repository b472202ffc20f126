import Mathlib.Data.List.Perm.Subperm
import Mathlib.Tactic.Common
import PolicyTree.Proofs.Tree.Succeeding

namespace PolicyTree

namespace Policy

variable {used : List String} {base name : String} {allows : List Bool} {isAllow : Bool} {k : Nat}

-- Names of entry nodes.

theorem append_toString_inj {i j : Nat} (h : base ++ toString i = base ++ toString j) : i = j := by
  have h : Nat.toDigits 10 i = Nat.toDigits 10 j := by simpa using congrArg String.toList h
  simpa only [Nat.ofDigitChars_ten_toDigits] using congrArg (Nat.ofDigitChars 10 · 0) h

theorem ne_append_toString {i : Nat} : base ≠ base ++ toString i := fun h => by
  simpa using congrArg String.toList h

theorem freeName_eq_or :
    freeName used base k = base ∨ ∃ i : Nat, freeName used base k = base ++ toString i := by
  have go (tries k : Nat) : ∃ i : Nat, freeName.go used base tries k = base ++ toString i := by
    induction tries generalizing k
    case zero => exact ⟨k, rfl⟩
    case succ tries hi =>
      rw [freeName.go]
      split
      · exact hi _
      · exact ⟨k, rfl⟩
  rw [freeName]
  split
  · exact .inr (go _ _)
  · exact .inl rfl

-- Were every name that is tried in use, more names would be in use than there are.
theorem freeName_not_mem : freeName used base k ∉ used := by
  have go (tries k : Nat) (h : freeName.go used base tries k ∈ used) :
      ∀ i, k ≤ i → i < k + tries → base ++ toString i ∈ used := by
    induction tries generalizing k
    case zero => omega
    case succ tries hi =>
      rw [freeName.go] at h
      split at h
      case isFalse hk => exact absurd h hk
      case isTrue hk =>
        intro i hki hi'
        rcases Nat.eq_or_lt_of_le hki with rfl | hlt
        · exact hk
        · exact hi _ h i hlt (by omega)
  rw [freeName]
  split
  case isFalse hb => exact hb
  case isTrue hb =>
    intro h
    let tried := base :: (List.range used.length).map fun i => base ++ toString (k + i)
    have nodup : tried.Nodup := by
      refine List.nodup_cons.2 ⟨fun hm => ?_, List.nodup_range.map fun i j hij => ?_⟩
      · obtain ⟨i, _, hi⟩ := List.mem_map.1 hm
        exact ne_append_toString hi.symm
      · have := append_toString_inj hij
        omega
    have inUse : tried ⊆ used := fun x hx => by
      rcases List.mem_cons.1 hx with rfl | hx
      · exact hb
      · obtain ⟨i, hi, rfl⟩ := List.mem_map.1 hx
        have := List.mem_range.1 hi
        exact go _ _ h _ (by omega) (by omega)
    have := (nodup.subperm inUse).length_le
    simp only [tried, List.length_cons, List.length_map, List.length_range] at this
    omega

theorem nodeNames_nodup : (nodeNames allows).Nodup := by
  have go (used : List String) (k : Nat) :
      (nodeNames.go used k allows).Nodup ∧ ∀ name ∈ nodeNames.go used k allows, name ∉ used := by
    induction allows generalizing used k
    case nil => simp [nodeNames.go]
    case cons isAllow allows hi =>
      have ⟨nodup, unused⟩ := hi (freeName used (baseName isAllow) k :: used) (k + 1)
      rw [nodeNames.go]
      refine ⟨List.nodup_cons.2 ⟨fun hm => unused _ hm List.mem_cons_self, nodup⟩, ?_⟩
      simp only [List.mem_cons, forall_eq_or_imp]
      exact ⟨freeName_not_mem, fun name hm hu => unused name hm (List.mem_cons_of_mem _ hu)⟩
  exact (go [] 0).1

theorem validateName_baseName {rest : String} (hr : '/' ∉ rest.toList) :
    Path.validateName (baseName isAllow ++ rest) = .ok () := by
  refine if_neg ?_
  rintro (h | h | h | h)
  case inr.inl => cases isAllow <;> simp [baseName, hr] at h
  all_goals
    have h := congrArg String.toList h
    cases isAllow <;> simp [baseName] at h

theorem validateName_of_mem_nodeNames (h : name ∈ nodeNames allows) :
    Path.validateName name = .ok () := by
  have valid {used : List String} {isAllow : Bool} {k : Nat} :
      Path.validateName (freeName used (baseName isAllow) k) = .ok () := by
    rcases freeName_eq_or with h | ⟨i, h⟩ <;> rw [h]
    · have nothing : '/' ∉ "".toList := by simp
      simpa using validateName_baseName nothing
    · refine validateName_baseName fun hm => ?_
      have hm : '/' ∈ Nat.toDigits 10 i := by simpa using hm
      simpa using Nat.isDigit_of_mem_toDigits (by decide) (by decide) hm
  have go {allows : List Bool} (used : List String) (k : Nat)
      (h : name ∈ nodeNames.go used k allows) :
      Path.validateName name = .ok () := by
    induction allows generalizing used k
    case nil => simp [nodeNames.go] at h
    case cons isAllow allows hi =>
      rw [nodeNames.go, List.mem_cons] at h
      rcases h with rfl | h
      · exact valid
      · exact hi _ _ h
  exact go _ _ h

theorem length_nodeNames : (nodeNames allows).length = allows.length := by
  have go (used : List String) (k : Nat) :
      (nodeNames.go used k allows).length = allows.length := by
    induction allows generalizing used k
    case nil => rfl
    case cons isAllow allows hi => rw [nodeNames.go, List.length_cons, List.length_cons, hi]
  exact go _ _

end Policy

-- The properties that an entry is stored with. A restriction takes the place of what else has its
-- name.
def Entry.properties (e : Entry) : Std.ExtTreeMap String Value :=
  e.restrictions.toList.foldl (fun properties r => properties.insert r.1 r.2) <|
    ((∅ : Std.ExtTreeMap String Value).insert Policy.principalProperty (.string e.principal)).insert
      Policy.privilegesProperty (.names (e.privileges.map (·.name)))

def Entry.node (policy : NodeId) (name : String) (e : Entry) : Node :=
  { Node.new name (some policy) (if e.isAllow then Policy.allowType else Policy.denyType) with
    properties := e.properties }

namespace Store

-- A node has a policy, and the children of that are the given nodes, entries and nothing else.
structure Lists (s : Store) (t : NodeTypes) (owner policy : NodeId) (ids : List NodeId)
    (nodes : List Node) : Prop where
  controlled : Policy.mixin ∈ s.effectiveTypes t owner
  list       : s.nodes[policy]? =
    some { Node.new Policy.nodeName (some owner) Policy.listType with children := ids }
  entries    : ids.map (s.nodes[·]?) = nodes.map some
  parents    : ∀ n ∈ nodes, n.parent = some policy

variable {s s' : Store} {t : NodeTypes} {owner policy id p : NodeId} {ids : List NodeId}
  {nodes : List Node} {n : Node} {name type : String} {value : Value}

theorem WellFormed.parent_ne (h : s.WellFormed) (hn : s.nodes[id]? = some n)
    (hp : n.parent = some p) : p ≠ id := by
  rintro rfl
  have ⟨ns, hs⟩ := h.stands hn
  have := congrArg List.length (h.stands_unique hs (.child hs hp hn))
  simp at this

-- What is a type of a node stays one as long as the node keeps its types.
theorem effectiveTypes_congr (h : (s'.nodes[id]?).map Node.types = (s.nodes[id]?).map Node.types) :
    s'.effectiveTypes t id = s.effectiveTypes t id := by
  unfold effectiveTypes
  cases hn : s.nodes[id]? <;> cases hn' : s'.nodes[id]? <;> simp_all

theorem Added.effectiveTypes_eq {x : NodeId} (h : Added s s' id p name type) (hx : x ≠ id) :
    s'.effectiveTypes t x = s.effectiveTypes t x := by
  refine effectiveTypes_congr ?_
  rw [h.nodes, if_neg hx]
  cases s.nodes[x]? <;> rfl

theorem lists_of_added (h : Added s s' policy owner Policy.nodeName Policy.listType)
    (hm : Policy.mixin ∈ s.effectiveTypes t owner) : s'.Lists t owner policy [] [] where
  controlled := by
    have ⟨n, hn⟩ := h.parent
    rw [h.effectiveTypes_eq]
    · exact hm
    · rintro rfl
      exact nomatch h.fresh.symm.trans hn
  list       := by simp [h.nodes, Node.new]
  entries    := rfl
  parents    := by simp

theorem Edited.mem_effectiveTypes {mixin : String} (h : Edited s s' id fun n =>
    { n with mixins := if mixin ∈ n.mixins then n.mixins else n.mixins ++ [mixin] }) :
    mixin ∈ s'.effectiveTypes t id := by
  have ⟨n, hn, _⟩ := h.node
  have hn' : s'.nodes[id]? = some
      { n with mixins := if mixin ∈ n.mixins then n.mixins else n.mixins ++ [mixin] } := by
    simp [h.nodes, hn]
  rw [Store.mem_effectiveTypes hn', NodeTypes.mem_expand]
  refine ⟨mixin, List.mem_cons_of_mem _ ?_, .refl⟩
  dsimp only
  split
  case isTrue hm => exact hm
  case isFalse   => simp

-- What has lost a child keeps its types, and has no child of that name any more.
theorem Removed.of_child (wf : s.WellFormed) (h : Removed s s' id p)
    (hc : s.child? owner name = some id) (ht : type ∈ s.effectiveTypes t owner) :
    type ∈ s'.effectiveTypes t owner ∧ s'.child? owner name = none := by
  obtain ⟨on, hon⟩ := exists_of_mem_effectiveTypes ht
  obtain ⟨n, hn, hp, hname⟩ := (wf.child_eq_some_iff hon).1 hc
  obtain ⟨ns, hs⟩ := wf.stands hon
  have stays : ¬s.isWithin id owner := fun hw => by
    obtain ⟨ms, hm, hms⟩ := (wf.isWithin_iff hs).1 hw
    have := (wf.stands_unique hms (.child hs hp hn) ▸ hm).length_le
    simp only [List.length_append, List.length_cons, List.length_nil] at this
    omega
  have hon' : s'.nodes[owner]? = some
      { on with children := if owner = p then on.children.filter (· ≠ id) else on.children } := by
    simp [h.nodes, stays, hon]
  constructor
  · simpa [effectiveTypes, hon, hon', Node.types] using ht
  · refine Option.eq_none_iff_forall_ne_some.2 fun x hx => ?_
    obtain ⟨m', hm', hmp, hmn⟩ := ((wf.removed h).child_eq_some_iff hon').1 hx
    rw [h.nodes] at hm'
    split at hm'
    case isTrue => simp at hm'
    case isFalse hw =>
      obtain ⟨m, hm, rfl⟩ := Option.map_eq_some_iff.1 hm'
      obtain rfl := wf.distinct hm hn hmp hp (hmn.trans hname.symm)
      exact hw (wf.isWithin_self hn)

namespace Lists

theorem node (h : s.Lists t owner policy ids nodes) {x : NodeId} (hx : x ∈ ids) :
    ∃ n ∈ nodes, s.nodes[x]? = some n := by
  have : s.nodes[x]? ∈ nodes.map some := h.entries ▸ List.mem_map.2 ⟨x, hx, rfl⟩
  obtain ⟨n, hn, he⟩ := List.mem_map.1 this
  exact ⟨n, hn, he.symm⟩

theorem free (h : s.Lists t owner policy ids nodes) (wf : s.WellFormed)
    (hname : ∀ n ∈ nodes, n.name ≠ name) : s.child? policy name = none := by
  refine Option.eq_none_iff_forall_ne_some.2 fun id hid => ?_
  have ⟨n, hn, hp, hnn⟩ := (wf.child_eq_some_iff h.list).1 hid
  have ⟨pn, hpn, hc⟩ := wf.listed hn hp
  obtain rfl := Option.some_inj.1 (hpn.symm.trans h.list)
  have ⟨m, hm, hmn⟩ := h.node hc
  obtain rfl := Option.some_inj.1 (hmn.symm.trans hn)
  exact hname m hm hnn

theorem add (h : s.Lists t owner policy ids nodes) (wf : s.WellFormed)
    (ha : Added s s' id policy name type) :
    s'.Lists t owner policy (ids ++ [id]) (nodes ++ [.new name (some policy) type]) where
  controlled := by
    rw [ha.effectiveTypes_eq]
    · exact h.controlled
    · rintro rfl
      simpa [effectiveTypes, ha.fresh] using h.controlled
  list       := by
    have : policy ≠ id := by
      rintro rfl
      simpa [h.list] using ha.fresh
    simp [ha.nodes, this, h.list, Node.new]
  entries    := by
    have old (x : NodeId) (hx : x ∈ ids) : s'.nodes[x]? = s.nodes[x]? := by
      obtain ⟨n, hn, hs⟩ := h.node hx
      have hid : x ≠ id := by
        rintro rfl
        simp [ha.fresh] at hs
      have hp : x ≠ policy := (wf.parent_ne hs (h.parents n hn)).symm
      simp [ha.nodes, hid, hp, hs]
    have new : s'.nodes[id]? = some (.new name (some policy) type) := by simp [ha.nodes]
    simp [List.map_congr_left old, h.entries, new]
  parents    := by simpa [or_imp, forall_and, Node.new] using h.parents

theorem setProperty (h : s.Lists t owner policy (ids ++ [id]) (nodes ++ [n])) (wf : s.WellFormed)
    (he : Edited s s' id fun n => { n with properties := n.properties.insert name value }) :
    s'.Lists t owner policy (ids ++ [id])
      (nodes ++ [{ n with properties := n.properties.insert name value }]) := by
  have ⟨hids, hid⟩ : ids.map (s.nodes[·]?) = nodes.map some ∧ s.nodes[id]? = some n := by
    simpa using h.entries
  have hp : policy ≠ id := wf.parent_ne hid (h.parents n (by simp))
  have fresh : id ∉ ids := by
    have nodup : (ids ++ [id]).Nodup := wf.nodup h.list
    exact fun hm => (List.nodup_append.1 nodup).2.2 id hm id (by simp) rfl
  refine ⟨?_, ?_, ?_, ?_⟩
  · rw [effectiveTypes_congr]
    · exact h.controlled
    · rw [he.nodes]
      cases s.nodes[owner]?
      case none => rfl
      case some m => by_cases hm : owner = id <;> simp [hm, Node.types]
  · simp [he.nodes, hp, h.list]
  · have old (x : NodeId) (hx : x ∈ ids) : s'.nodes[x]? = s.nodes[x]? := by
      have : x ≠ id := fun hxid => fresh (hxid ▸ hx)
      simp [he.nodes, this]
    have new : s'.nodes[id]? = some { n with properties := n.properties.insert name value } := by
      simp [he.nodes, hid]
    simp [List.map_congr_left old, hids, new]
  · simpa [or_imp, forall_and] using h.parents

end Lists

end Store

-- Every restriction of an entry may be a property of a node.
def Entry.Storable (e : Entry) : Prop := ∀ name ∈ e.restrictions, Store.IsPropertyName name

def Policy.nodes (policy : NodeId) (p : Policy) : List Node :=
  ((nodeNames (p.entries.map (·.isAllow))).zip p.entries).map fun (name, e) => e.node policy name

namespace SessionM.Ensures

variable {saved : Saved} {owner policy node : NodeHandle} {nodes : List Node} {n : Node}
  {name : String} {value : Value} {e : Entry} {p : Policy} {E : Desk → Prop}

theorem lists_setProperty (hE : ¬Store.IsPropertyName name → ∀ d, E d) :
    Ensures saved
      (Desk.Has saved fun s =>
        ∃ ids, s.Lists saved.types owner.id policy.id (ids ++ [node.id]) (nodes ++ [n]))
      (setProperty node name value)
      (fun _ => Desk.Has saved fun s =>
        ∃ ids, s.Lists saved.types owner.id policy.id (ids ++ [node.id])
          (nodes ++ [{ n with properties := n.properties.insert name value }]))
      E := by
  refine .has_setProperty hE (fun s _ ⟨ids, h⟩ => ?_) fun s s' wf ⟨ids, h⟩ he =>
    ⟨ids, h.setProperty wf he⟩
  have ⟨m, _, hm⟩ := h.node (x := node.id) (by simp)
  exact ⟨m, hm⟩

theorem lists_storeEntry (hE : ¬e.Storable → ∀ d, E d) (valid : Path.validateName name = .ok ())
    (free : ∀ n ∈ nodes, n.name ≠ name) :
    Ensures saved
      (Desk.Has saved fun s => ∃ ids, s.Lists saved.types owner.id policy.id ids nodes)
      (Policy.storeEntry policy name e)
      (fun _ => Desk.Has saved fun s =>
        ∃ ids, s.Lists saved.types owner.id policy.id ids (nodes ++ [e.node policy.id name]))
      E := by
  let new : Node :=
    .new name (some policy.id) (if e.isAllow then Policy.allowType else Policy.denyType)
  refine .bind (.has_addNode (Q := fun node s =>
      ∃ ids, s.Lists saved.types owner.id policy.id (ids ++ [node.id]) (nodes ++ [new])) valid
    (fun s wf ⟨ids, h⟩ => ⟨⟨_, h.list⟩, h.free wf free⟩)
    fun s s' node wf ⟨ids, h⟩ ha => ⟨ids, h.add wf ha⟩) fun node => ?_
  refine .bind (lists_setProperty (absurd (by decide))) fun _ =>
    .bind (lists_setProperty (absurd (by decide))) fun _ => ?_
  let start := (new.properties.insert Policy.principalProperty (.string e.principal)).insert
    Policy.privilegesProperty (.names (e.privileges.map (·.name)))
  refine Ensures.weaken (.forM_done (P := fun done => Desk.Has saved fun s =>
      ∃ ids, s.Lists saved.types owner.id policy.id (ids ++ [node.id]) (nodes ++ [{ new with
        properties := done.foldl (fun properties r => properties.insert r.1 r.2) start }]))
    fun done r rest hr => ?_) (fun _ => id) (fun _ _ hd => ?_) fun _ => id
  · have mem : r.1 ∈ e.restrictions := by
      have : r ∈ e.restrictions.toList := hr ▸ by simp
      exact Std.ExtTreeMap.mem_iff_isSome_getElem?.2
        (Std.ExtTreeMap.mem_toList_iff_getElem?_eq_some.1 this ▸ rfl)
    simp only [List.foldl_append, List.foldl_cons, List.foldl_nil]
    exact lists_setProperty fun hname => hE fun he => hname (he _ mem)
  · have ⟨ids, h⟩ := hd.tree
    exact ⟨hd.orderly, hd.faults, _, h⟩

theorem lists_entries (hE : (¬∀ e ∈ p.entries, e.Storable) → ∀ d, E d) :
    Ensures saved (Desk.Has saved fun s => ∃ ids, s.Lists saved.types owner.id policy.id ids [])
      (((Policy.nodeNames (p.entries.map (·.isAllow))).zip p.entries).forM fun (name, e) =>
        Policy.storeEntry policy name e)
      (fun _ => Desk.Has saved fun s =>
        ∃ ids, s.Lists saved.types owner.id policy.id ids (p.nodes policy.id))
      E := by
  have nodup :
      (((Policy.nodeNames (p.entries.map (·.isAllow))).zip p.entries).map (·.1)).Nodup := by
    rw [List.map_fst_zip (by simp [Policy.length_nodeNames])]
    exact Policy.nodeNames_nodup
  have named : ∀ b ∈ (Policy.nodeNames (p.entries.map (·.isAllow))).zip p.entries,
      Path.validateName b.1 = .ok () ∧ b.2 ∈ p.entries := fun b hb =>
    ⟨Policy.validateName_of_mem_nodeNames (List.of_mem_zip hb).1, (List.of_mem_zip hb).2⟩
  unfold Policy.nodes
  generalize (Policy.nodeNames (p.entries.map (·.isAllow))).zip p.entries = l at nodup named ⊢
  refine .forM_done (P := fun (done : List (String × Entry)) => Desk.Has saved fun s => ∃ ids,
      s.Lists saved.types owner.id policy.id ids (done.map fun (name, e) => e.node policy.id name))
    fun done b rest hl => ?_
  obtain ⟨name, e⟩ := b
  have ⟨valid, he⟩ := named (name, e) (hl ▸ by simp)
  rw [List.map_append]
  refine lists_storeEntry (fun hs => hE fun h => hs (h e he)) valid fun n hn => ?_
  obtain ⟨⟨other, e'⟩, hd, rfl⟩ := List.mem_map.1 hn
  rintro (rfl : other = name)
  rw [← hl, List.map_append, List.nodup_append] at nodup
  exact nodup.2.2 _ (List.mem_map.2 ⟨_, hd, rfl⟩) _ (by simp) rfl

-- A policy is stored as a whole, unless a restriction of some entry may not be a property.
theorem lists_store :
    Ensures saved (Desk.Has saved fun s => ∃ n, s.nodes[p.owner.id]? = some n) p.store
      (fun _ => Desk.Has saved fun s =>
        ∃ policy ids, s.Lists saved.types p.owner.id policy ids (p.nodes policy))
      fun _ => ¬∀ e ∈ p.entries, e.Storable := by
  let Controlled (s : Store) := Policy.mixin ∈ s.effectiveTypes saved.types p.owner.id
  have there {s : Store} (h : Controlled s) : ∃ n, s.nodes[p.owner.id]? = some n :=
    Store.exists_of_mem_effectiveTypes h
  have added : Ensures saved
      (Desk.Has saved fun s => Controlled s ∧ s.child? p.owner.id Policy.nodeName = none)
      (storeAnew p)
      (fun _ => Desk.Has saved fun s =>
        ∃ policy ids, s.Lists saved.types p.owner.id policy ids (p.nodes policy))
      fun _ => ¬∀ e ∈ p.entries, e.Storable := by
    refine .bind (.has_addNode (Q := fun policy s =>
        ∃ ids, s.Lists saved.types p.owner.id policy.id ids []) (by decide)
      (fun s wf hs => ⟨there hs.1, hs.2⟩)
      fun s s' policy wf hs ha => ⟨[], Store.lists_of_added ha hs.1⟩) fun policy => ?_
    refine Ensures.weaken (lists_entries fun h _ => h) (fun _ => id) (fun _ _ hd => ?_) fun _ => id
    exact ⟨hd.orderly, hd.faults, policy.id, hd.tree⟩
  have replaced : Ensures saved (Desk.Has saved Controlled) (replaceFormer p)
      (fun _ => Desk.Has saved fun s =>
        ∃ policy ids, s.Lists saved.types p.owner.id policy ids (p.nodes policy))
      fun _ => ¬∀ e ∈ p.entries, e.Storable := by
    refine .bind (.has_ask (Q := fun former s => Controlled s ∧
        s.child? p.owner.id Policy.nodeName = former.map (·.id)) fun s wf hc => ?_)
      fun former => ?_
    · obtain ⟨n, hn⟩ := there hc
      refine ⟨_, Store.view_child hn, hc, ?_⟩
      cases hf : s.child? p.owner.id Policy.nodeName
      case none => rfl
      case some id =>
        obtain ⟨m, hm, _⟩ := (wf.child_eq_some_iff hn).1 hf
        obtain ⟨ns, hs⟩ := wf.stands hm
        simp [wf.handle_eq hs]
    · cases former
      case none        => exact added
      case some former =>
        refine .bind (.has_removeNode (fun s wf hs => ?_) fun s s' q wf hs hr => ?_)
          fun _ => added
        · obtain ⟨n, hn⟩ := there hs.1
          obtain ⟨m, hm, hp, _⟩ := (wf.child_eq_some_iff hn).1 hs.2
          exact ⟨m, _, hm, hp⟩
        · exact hr.of_child wf hs.2 hs.1
  refine .bind (.has_ask (Q := fun (isControlled : Bool) s =>
      (∃ n, s.nodes[p.owner.id]? = some n) ∧ (isControlled ↔ Controlled s)) fun s wf hs => ?_)
    fun isControlled => ?_
  · obtain ⟨n, hn⟩ := hs
    exact ⟨_, Store.view_isType hn, ⟨n, hn⟩, by simp [Controlled]⟩
  · cases isControlled
    case true =>
      exact replaced.weaken (fun d hd => ⟨hd.1, hd.2, hd.3.2.1 rfl⟩) (fun _ _ => id) fun _ => id
    case false =>
      exact .bind (.has_addMixin (fun _ _ hs => hs.1) fun _ _ _ _ he => he.mem_effectiveTypes)
        fun _ => replaced

end SessionM.Ensures

end PolicyTree
