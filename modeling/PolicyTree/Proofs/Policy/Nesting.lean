import Mathlib.Tactic.Common
import PolicyTree.Proofs.Policy.Curating
import PolicyTree.Proofs.Policy.Replacing

namespace PolicyTree

namespace Store

open Policy

variable {s s' : Store} {id p x : NodeId} {n : Node} {name type : String}

def Unnested (s : Store) : Prop := ∀ x, s.IsContent x → ¬s.IsControlled x

theorem isControlled_iff (hn : s.nodes[id]? = some n) : s.IsControlled id ↔ mixin ∈ n.types := by
  rw [IsControlled, mem_effectiveTypes hn, NodeTypes.mem_initial_expand]
  simp [mixin]

namespace Unnested

theorem of_types (h : ∀ {x : NodeId} {n : Node}, s.nodes[x]? = some n → mixin ∈ n.types →
    ∀ t ∈ contentTypes, t ∉ n.types) : s.Unnested := by
  intro x hc controlled
  obtain ⟨n, hn⟩ := hc.exists
  obtain ⟨t, ht, htn⟩ := (isContent_iff hn).1 hc
  exact h hn ((isControlled_iff hn).1 controlled) t ht htn

theorem types (h : s.Unnested) (hn : s.nodes[x]? = some n) (hm : mixin ∈ n.types) :
    ∀ t ∈ contentTypes, t ∉ n.types := fun t ht htn =>
  h x ((isContent_iff hn).2 ⟨t, ht, htn⟩) ((isControlled_iff hn).2 hm)

theorem initial (h : type ∉ contentTypes) : (Store.initial id type).Unnested :=
  fun _ hc => absurd hc (not_content_initial h)

-- A new node has one type, and that does not make it both.
theorem added (h : s.Unnested) (ha : Added s s' id p name type) : s'.Unnested := by
  refine of_types fun {x n} hn hm t ht htn => ?_
  rw [ha.nodes] at hn
  split at hn
  case isFalse =>
    obtain ⟨m, hx, rfl⟩ := Option.map_eq_some_iff.1 hn
    exact h.types (n := m) hx hm t ht htn
  case isTrue =>
    obtain rfl := Option.some_inj.1 hn
    simp only [Node.types, Node.new, List.mem_singleton] at hm htn
    obtain rfl : t = mixin := htn.trans hm.symm
    exact absurd ht (by decide)

theorem removed (h : s.Unnested) (hr : Removed s s' id p) : s'.Unnested := by
  refine of_types fun {x n} hn hm => ?_
  rw [hr.nodes] at hn
  split at hn
  case isTrue  => exact nomatch hn
  case isFalse =>
    obtain ⟨m, hx, rfl⟩ := Option.map_eq_some_iff.1 hn
    exact h.types (n := m) hx hm

theorem edited {edit : Node → Node} (h : s.Unnested) (he : Edited s s' id edit)
    (apart : ∀ n, s.nodes[id]? = some n → mixin ∈ (edit n).types →
      ∀ t ∈ contentTypes, t ∉ (edit n).types) : s'.Unnested := by
  refine of_types fun {x n} hn hm => ?_
  rw [he.nodes] at hn
  obtain ⟨m, hx, rfl⟩ := Option.map_eq_some_iff.1 hn
  split at hm
  case isTrue hid =>
    rw [if_pos hid]
    exact apart m (hid ▸ hx) hm
  case isFalse hid =>
    rw [if_neg hid]
    exact h.types hx hm

end Unnested

end Store

namespace SessionM

open Store (Unnested)

variable {α β ε : Type} {saved : Saved} {K : Store → Prop} {node parent policy : NodeHandle}
  {name type mixin path : String} {value : Value} {p : Policy} {e : Entry}

-- Work that keeps a session orderly, and what is said of its tree true, even if it fails.
def Keeps (saved : Saved) (K : Store → Prop) (work : SessionM ε α) : Prop :=
  Ensures saved (Desk.Shows saved K) work (fun _ => Desk.Shows saved K) (Desk.Shows saved K)

namespace Keeps

theorem bind {x : SessionM ε β} {f : β → SessionM ε α} (hx : Keeps saved K x)
    (hf : ∀ b, Keeps saved K (f b)) : Keeps saved K (x >>= f) := Ensures.bind hx hf

theorem forM {l : List β} {f : β → SessionM ε PUnit} (h : ∀ b, Keeps saved K (f b)) :
    Keeps saved K (l.forM f) := Ensures.forM fun b _ => h b

theorem lift {work : SessionM TreeError α} (h : Keeps saved K work) :
    Keeps saved K (liftM work : SessionM AccessError α) := Ensures.lift h

theorem always {work : SessionM ε α} {desk : Desk} (h : Keeps saved K work)
    (hd : desk.Shows saved K) : (work.run' saved desk).2.Shows saved K := Ensures.always h hd

theorem ask {question : TreeView → Except ε α} : Keeps saved K (SessionM.ask question) :=
  Ensures.ask (fun _ hd _ _ => hd) fun _ => id

theorem of_tree {work : SessionM ε α} (hw : Composed work)
    (h : Ensures saved (Desk.Shows saved K) work (fun _ d => K (d.store saved))
      fun d => K (d.store saved)) : Keeps saved K work :=
  (h.orderly hw).weaken (fun _ => id) (fun _ _ hd => ⟨hd.1, hd.2⟩) fun _ hd => ⟨hd.1, hd.2⟩

theorem write {call : Call} {change : Store → Except TreeError (α × Store)}
    (hw : Composed (SessionM.write call change))
    (h : ∀ s, K s → ∀ a s', change s = .ok (a, s') → K s') :
    Keeps saved K (SessionM.write call change) :=
  .of_tree hw <| .write (fun _ hd a s' hs => h _ hd.tree a s' hs) fun _ hd => ⟨hd.tree, hd.tree⟩

theorem addNode : Keeps saved Unnested (SessionM.addNode parent name type) := by
  refine .of_tree (.addNode ..) <| .bind
    (R := fun id d => Desk.Shows saved Unnested d ∧ (d.store saved).nodes[id]? = none)
    (.takeId fun d hd => ⟨⟨hd.orderly.turn .take, hd.tree⟩, hd.orderly.fresh⟩) fun id =>
    .write (fun d hd node s' hs => ?_) fun _ hd => ⟨hd.1.tree, hd.1.tree⟩
  have ⟨hs, _⟩ := Store.new_eq_ok_iff.1 hs
  exact hd.1.tree.added (Store.added_of_addNode hd.2 hs)

theorem setProperty : Keeps saved Unnested (SessionM.setProperty node name value) := by
  refine .write (.setProperty ..) fun s hk _ s' hs => ?_
  have edited := Store.edited_of_setProperty (unit_eq_ok_iff.1 hs)
  exact hk.edited edited fun n hn hm => hk.types (n := n) hn hm

theorem removeProperty : Keeps saved Unnested (SessionM.removeProperty node name) :=
  .write (.removeProperty ..) fun _ hk _ _ hs =>
    hk.edited (Store.edited_of_removeProperty hs) fun n hn hm => hk.types (n := n) hn hm

theorem removeNode : Keeps saved Unnested (SessionM.removeNode node) := by
  refine .write (.removeNode _) fun s hk _ s' hs => ?_
  obtain ⟨_, removed⟩ := Store.removed_of_removeNode (unit_eq_ok_iff.1 hs)
  exact hk.removed removed

-- A node that is no access control content may be given a policy.
theorem addMixin (plain : mixin ∉ Policy.contentTypes) :
    Keeps saved (fun s => s.Unnested ∧ ¬s.IsContent node.id) (SessionM.addMixin node mixin) := by
  refine .write (.addMixin ..) fun s ⟨unnested, outside⟩ _ s' hs => ?_
  have edited := Store.edited_of_addMixin (unit_eq_ok_iff.1 hs)
  have kinds : s.KeepsKinds s' := .edited edited fun _ _ _ => Store.mem_types_of_addMixin plain
  refine ⟨unnested.edited edited fun n hn _ t ht htn => outside ?_, fun hc => outside ?_⟩
  · exact (Store.isContent_iff hn).2 ⟨t, ht, Store.mem_types_of_addMixin plain ht htn⟩
  · exact kinds.content (edited.mem (Store.mem_nodes_iff.2 hc.exists)) hc

theorem storeEntry : Keeps saved Unnested (Policy.storeEntry policy name e) :=
  .bind (by split <;> exact addNode) fun _ => .bind setProperty fun _ => .bind setProperty fun _ =>
    .forM fun _ => setProperty

theorem replaceFormer : Keeps saved Unnested (SessionM.replaceFormer p) := by
  have anew : Keeps saved Unnested (storeAnew p) := .bind addNode fun _ => .forM fun _ => storeEntry
  refine .bind ask fun former => ?_
  cases former
  case none   => exact anew
  case some f => exact .bind removeNode fun _ => anew

end Keeps

namespace Ensures

-- The one node that gets a mixin is the owner of the policy.
theorem unnested_store :
    Ensures saved (Desk.Shows saved fun s => s.Unnested ∧ ¬s.IsContent p.owner.id) p.store
      (fun _ => Desk.Shows saved Unnested) (Desk.Shows saved Unnested) := by
  have drop (d : Desk) (hd : d.Shows saved fun s => s.Unnested ∧ ¬s.IsContent p.owner.id) :
      d.Shows saved Unnested := ⟨hd.orderly, hd.tree.1⟩
  have replaced : Ensures saved
      (Desk.Shows saved fun s => s.Unnested ∧ ¬s.IsContent p.owner.id) (replaceFormer p)
      (fun _ => Desk.Shows saved Unnested) (Desk.Shows saved Unnested) :=
    weaken Keeps.replaceFormer drop (fun _ _ => id) fun _ => id
  have asked : Ensures saved (Desk.Shows saved fun s => s.Unnested ∧ ¬s.IsContent p.owner.id)
      (SessionM.ask fun tree => tree.isType p.owner Policy.mixin) _ _ := Keeps.ask
  have given : Ensures saved (Desk.Shows saved fun s => s.Unnested ∧ ¬s.IsContent p.owner.id)
      (addMixin p.owner Policy.mixin) _ _ := Keeps.addMixin (by decide)
  refine .bind (asked.weaken (fun _ => id) (fun _ _ => id) drop) fun isControlled => ?_
  cases isControlled
  case true  => exact replaced
  case false => exact .bind (given.weaken (fun _ => id) (fun _ _ => id) drop) fun _ => replaced

theorem unnested_setPolicy (types : saved.types = .initial) :
    Ensures saved
      (Desk.Shows saved fun s => s.Unnested ∧ ∀ o, s.handle? p.owner.id = some o → o = p.owner)
      (Editor.setPolicy path p) (fun _ => Desk.Shows saved Unnested)
      (Desk.Shows saved Unnested) := by
  refine .bind (R := fun node => Desk.Shows saved fun s =>
    s.Unnested ∧ (p.owner.path = node.path → ¬s.IsContent p.owner.id))
    (.ask (fun d hd node hnode => ⟨hd.orderly, hd.tree.1, fun same => ?_⟩)
      fun d hd => ⟨hd.orderly, hd.tree.1⟩) fun node => ?_
  · exact not_content_of_target hd.orderly.wellFormed types hd.tree.2 hnode same
  · split
    case isTrue =>
      exact .bind (R := fun _ _ => False) (.throw fun d hd => ⟨hd.orderly, hd.tree.1⟩)
        fun _ _ => nofun
    case isFalse hpath =>
      exact .lift <| weaken unnested_store
        (fun d hd => ⟨hd.orderly, hd.tree.1, hd.tree.2 (not_not.1 hpath)⟩) (fun _ _ => id)
        fun _ => id

end Ensures

-- What may be done in a session that writes policies with the editor, and otherwise adds nodes
-- outside of them and gives mixins to nodes outside of them only, none of which makes a node access
-- control content. Handles come from the tree, so the one of an owner that is there has the path
-- where it stands.
inductive Respects (tree : Store) : {α ε : Type} → SessionM ε α → Prop
  | setPolicy (path : String) {p : Policy}
    (genuine : ∀ o, tree.handle? p.owner.id = some o → o = p.owner) :
    Respects tree (Editor.setPolicy path p)
  | removePolicy (path : String) : Respects tree (Editor.removePolicy path)
  | addNode {parent : NodeHandle} (outside : ¬tree.IsContent parent.id) (name : String)
    {type : String} (plain : type ∉ Policy.contentTypes) :
    Respects tree (SessionM.addNode parent name type)
  | addMixin {node : NodeHandle} (outside : ¬tree.IsContent node.id) {mixin : String}
    (plain : mixin ∉ Policy.contentTypes) : Respects tree (SessionM.addMixin node mixin)
  | setProperty (node : NodeHandle) (name : String) (value : Value) :
    Respects tree (SessionM.setProperty node name value)
  | removeProperty (node : NodeHandle) (name : String) :
    Respects tree (SessionM.removeProperty node name)
  | removeNode (node : NodeHandle) : Respects tree (SessionM.removeNode node)
  | ask {α ε : Type} (question : TreeView → Except ε α) : Respects tree (SessionM.ask question)

namespace Respects

variable {work : SessionM ε α} {desk : Desk}

theorem unnested (h : work.Respects (desk.session.store saved)) (types : saved.types = .initial)
    (hd : desk.Shows saved Unnested) : (work.run' saved desk).2.Shows saved Unnested := by
  rw [Desk.store_eq] at h
  cases h
  case setPolicy genuine =>
    exact (Ensures.unnested_setPolicy types).always ⟨hd.orderly, hd.tree, genuine⟩
  case removePolicy   => exact (Keeps.bind Keeps.ask fun _ => .lift Keeps.removeNode).always hd
  case addNode        => exact Keeps.addNode.always hd
  case setProperty    => exact Keeps.setProperty.always hd
  case removeProperty => exact Keeps.removeProperty.always hd
  case removeNode     => exact Keeps.removeNode.always hd
  case ask            => exact Keeps.ask.always hd
  case addMixin outside _ plain =>
    have shows := (Keeps.addMixin plain).always ⟨hd.orderly, hd.tree, outside⟩
    exact ⟨shows.orderly, shows.tree.1⟩

end Respects

end SessionM

end PolicyTree
