import Mathlib.Tactic.Common
import PolicyTree.Proofs.Policy.Editing
import PolicyTree.Proofs.Policy.Revising
import PolicyTree.Proofs.Policy.Storing

namespace PolicyTree

-- What is found of a node, and its kind.

namespace SessionM

variable {saved : Saved} {desk : Desk} {node found : NodeHandle} {name path : String}

theorem child_of_view (h : (desk.session.view saved).child node name = .ok (some found)) :
    (desk.store saved).child? node.id name = some found.id := by
  have h := Faults.of_find h
  rw [Desk.store_eq] at h
  obtain ⟨_, _, h⟩ := bind_eq_ok_iff.1 h
  obtain ⟨id, hid, ho⟩ := Option.bind_eq_some_iff.1 (pure_eq_ok_iff.1 h)
  obtain ⟨_, _, rfl⟩ := Option.map_eq_some_iff.1 ho
  exact hid

theorem handle_of_resolve (h : (desk.session.view saved).resolve path = .ok (some found)) :
    (desk.store saved).handle? found.id = some found := by
  have h := Faults.of_find h
  rw [Desk.store_eq] at h
  obtain ⟨r, _, h⟩ := bind_eq_ok_iff.1 h
  obtain ⟨id, _, ho⟩ := Option.bind_eq_some_iff.1 (pure_eq_ok_iff.1 h)
  obtain ⟨_, _, rfl⟩ := Option.map_eq_some_iff.1 ho
  exact ho

theorem not_content_of_view (types : saved.types = .initial)
    (h : Policy.isContent (desk.session.view saved) node = .ok false) :
    ¬(desk.store saved).IsContent node.id := by
  obtain ⟨isList, hl, h⟩ := bind_eq_ok_iff.1 h
  cases isList
  case true  => exact nomatch h
  case false =>
    have list := (isType_of_view hl).2
    have entry := (isType_of_view h).2
    rw [types] at list entry
    rintro (hl | he)
    · exact nomatch list.2 hl
    · exact nomatch entry.2 he

end SessionM

theorem Editor.target_eq_ok_iff {tree : TreeView} {path : String} {node : NodeHandle} :
    target tree path = .ok node ↔
      tree.resolve path = .ok (some node) ∧ Policy.isContent tree node = .ok false := by
  constructor
  case mp =>
    intro h
    obtain ⟨found, hr, h⟩ := bind_eq_ok_iff.1 h
    cases found
    case none => exact nomatch h
    case some o =>
      obtain ⟨isContent, hc, h⟩ := bind_eq_ok_iff.1 h
      cases isContent
      case true  => exact nomatch h
      case false =>
        obtain rfl := Except.ok.inj h
        exact ⟨mapError_eq_ok_iff.1 hr, mapError_eq_ok_iff.1 hc⟩
  case mpr =>
    rintro ⟨hr, hc⟩
    simp [target, hr, hc]

-- The owner of a policy that may be set is no access control content: it is the node at the path,
-- as its handle is genuine.
theorem SessionM.not_content_of_target {saved : Saved} {desk : Desk} {node : NodeHandle}
    {p : Policy} {path : String} (wf : (desk.store saved).WellFormed)
    (types : saved.types = .initial)
    (genuine : ∀ o, (desk.store saved).handle? p.owner.id = some o → o = p.owner)
    (h : Editor.target (desk.session.view saved) path = .ok node)
    (same : p.owner.path = node.path) : ¬(desk.store saved).IsContent p.owner.id := by
  intro hc
  obtain ⟨resolved, plain⟩ := Editor.target_eq_ok_iff.1 h
  obtain ⟨_, ns, hs, hpath⟩ := wf.handle_eq_some_iff.1 (handle_of_resolve resolved)
  obtain ⟨n, hn⟩ := hc.exists
  obtain ⟨ms, hms⟩ := wf.stands hn
  have hpath' : Path.ofNames ms = p.owner.path :=
    congrArg NodeHandle.path (genuine _ (wf.handle_eq hms))
  obtain rfl : ms = ns := Path.ofNames_injective (wf.isSegment_of_stands hms)
    (wf.isSegment_of_stands hs) (hpath'.trans (same.trans hpath))
  exact not_content_of_view types plain (wf.stands_inj hms hs ▸ hc)

theorem Policy.child_of_node {tree : TreeView} {owner policy : NodeHandle}
    (h : node? tree owner = .ok (some policy)) : tree.child owner nodeName = .ok (some policy) := by
  obtain ⟨isControlled, _, h⟩ := bind_eq_ok_iff.1 h
  cases isControlled
  case false => exact nomatch h
  case true  =>
    obtain ⟨found, hc, h⟩ := bind_eq_ok_iff.1 h
    cases found
    case none   => exact nomatch h
    case some f =>
      obtain ⟨isList, _, h⟩ := bind_eq_ok_iff.1 h
      cases isList
      case false => exact nomatch h
      case true  =>
        obtain rfl := Option.some_inj.1 (Except.ok.inj h)
        exact hc

-- A sound session, and what there is to say of its copy as long as that may be saved: policies have
-- come and gone as wholes, and `K` holds.
structure Desk.Revises (saved : Saved) (K : Store → Prop) (desk : Desk) : Prop where
  sound : desk.Sound saved
  tree  : (SessionM.copy saved desk.session).base = saved.revision →
    saved.store.Revised (desk.store saved) ∧ K (desk.store saved)

theorem Desk.Revises.weaken {saved : Saved} {K L : Store → Prop} {desk : Desk}
    (h : desk.Revises saved K) (hk : ∀ s, K s → L s) : desk.Revises saved L :=
  ⟨h.sound, fun hb => (h.tree hb).imp_right (hk _)⟩

namespace SessionM

variable {α β ε : Type} {saved : Saved} {K L : Store → Prop} {node parent : NodeHandle}
  {name type : String}

namespace Ensures

-- What is done before it fails leaves policies whole.

theorem revises_ask {question : TreeView → Except ε α} {Q : α → Store → Prop}
    (h : ∀ desk : Desk, (desk.store saved).WellFormed → saved.types = .initial →
      K (desk.store saved) → ∀ a, question (desk.session.view saved) = .ok a →
      Q a (desk.store saved)) :
    Ensures saved (Desk.Revises saved K) (SessionM.ask question) (fun a => Desk.Revises saved (Q a))
      (Desk.Revises saved fun _ => True) := by
  refine .ask (fun d hd a ha => ⟨hd.sound, fun hb => ?_⟩) fun d hd =>
    hd.weaken fun _ _ => trivial
  have ⟨revised, hk⟩ := hd.tree hb
  exact ⟨revised, h d (hd.sound.copied.wellFormed hb) hd.sound.tree.types hk a ha⟩

-- Soundness is kept by all work, so only the tree is left to be looked at.
theorem revises_of_tree {work : SessionM ε α} {Q : α → Store → Prop} (hw : Composed work)
    (h : Ensures saved (Desk.Revises saved K) work
      (fun a d => (copy saved d.session).base = saved.revision →
        saved.store.Revised (d.store saved) ∧ Q a (d.store saved))
      fun d => (copy saved d.session).base = saved.revision →
        saved.store.Revised (d.store saved)) :
    Ensures saved (Desk.Revises saved K) work (fun a => Desk.Revises saved (Q a))
      (Desk.Revises saved fun _ => True) := by
  have sound : Ensures saved (Desk.Sound saved) work _ _ := hw.ensures fun hd ht => hd.turns ht
  have sound : Ensures saved (Desk.Revises saved K) work _ _ :=
    sound.weaken (fun _ hd => hd.sound) (fun _ _ => id) fun _ => id
  exact (sound.and h).weaken (fun _ => id) (fun _ _ hd => ⟨hd.1, hd.2⟩) fun _ hd =>
    ⟨hd.1, fun hb => ⟨hd.2 hb, trivial⟩⟩

theorem revises_write {call : Call} {change : Store → Except TreeError (α × Store)}
    {Q : α → Store → Prop} (hw : Composed (SessionM.write call change))
    (h : ∀ s, s.WellFormed → saved.store.Revised s → K s → ∀ a s', change s = .ok (a, s') →
      saved.store.Revises s s' ∧ Q a s') :
    Ensures saved (Desk.Revises saved K) (SessionM.write call change)
      (fun a => Desk.Revises saved (Q a)) (Desk.Revises saved fun _ => True) := by
  refine revises_of_tree hw <| .write (fun d hd a s' hs hb => ?_) fun d hd =>
    ⟨fun hb => (hd.tree hb).1, fun hb => (hd.tree hb).1⟩
  have ⟨revised, hk⟩ := hd.tree hb
  have copied := hd.sound.copied
  have wf := copied.wellFormed hb
  have ⟨step, hq⟩ := h _ wf revised hk a s' hs
  exact ⟨revised.revises hd.sound.tree.wellFormed wf (copied.follows hb) step, hq⟩

theorem revises_addMixin {mixin : String} (plain : mixin ∉ Policy.contentTypes)
    (entry : ∀ s, K s → s.IsEntry node.id → node.id ∉ saved.store.nodes)
    (h : ∀ s s', s.WellFormed → K s → Store.Edited s s' node.id (fun n =>
      { n with mixins := if mixin ∈ n.mixins then n.mixins else n.mixins ++ [mixin] }) → L s') :
    Ensures saved (Desk.Revises saved K) (addMixin node mixin) (fun _ => Desk.Revises saved L)
      (Desk.Revises saved fun _ => True) := by
  refine revises_write (.addMixin ..) fun s wf revised hk _ s' hs => ?_
  have edited := Store.edited_of_addMixin (unit_eq_ok_iff.1 hs)
  exact ⟨.edit edited (fun _ _ _ => Store.mem_types_of_addMixin plain) (entry s hk),
    h s s' wf hk edited⟩

theorem revises_setProperty {value : Value}
    (entry : ∀ s, K s → s.IsEntry node.id → node.id ∉ saved.store.nodes)
    (h : ∀ s s', s.WellFormed → K s → Store.Edited s s' node.id
      (fun n => { n with properties := n.properties.insert name value }) → L s') :
    Ensures saved (Desk.Revises saved K) (setProperty node name value)
      (fun _ => Desk.Revises saved L) (Desk.Revises saved fun _ => True) := by
  refine revises_write (.setProperty ..) fun s wf revised hk _ s' hs => ?_
  have edited := Store.edited_of_setProperty (unit_eq_ok_iff.1 hs)
  exact ⟨.edit edited (fun _ _ _ _ => id) (entry s hk), h s s' wf hk edited⟩

theorem revises_removeProperty
    (entry : ∀ s, K s → s.IsEntry node.id → node.id ∉ saved.store.nodes) :
    Ensures saved (Desk.Revises saved K) (removeProperty node name)
      (fun _ => Desk.Revises saved fun _ => True) (Desk.Revises saved fun _ => True) :=
  revises_write (.removeProperty ..) fun s _ _ hk _ _ hs =>
    ⟨.edit (Store.edited_of_removeProperty hs) (fun _ _ _ _ => id) (entry s hk), trivial⟩

theorem revises_removeNode (whole : ∀ s, s.WellFormed → s.Tidy → K s → ¬s.IsEntry node.id)
    (h : ∀ s s' p, s.WellFormed → K s → Store.Removed s s' node.id p → L s') :
    Ensures saved (Desk.Revises saved K) (removeNode node) (fun _ => Desk.Revises saved L)
      (Desk.Revises saved fun _ => True) := by
  refine revises_write (.removeNode _) fun s wf revised hk _ s' hs => ?_
  obtain ⟨p, removed⟩ := Store.removed_of_removeNode (unit_eq_ok_iff.1 hs)
  exact ⟨.remove removed (whole s wf revised.tidy hk), h s s' p wf hk removed⟩

theorem revises_addNode {Q : NodeHandle → Store → Prop}
    (named : name = Policy.nodeName → type = Policy.listType)
    (fits : ∀ s, K s → parent.id ∈ s.nodes → s.Fits parent.id name type)
    (below : ∀ s, K s → s.IsList parent.id → parent.id ∉ saved.store.nodes)
    (h : ∀ s s' node, s.WellFormed → K s → node.id ∉ saved.store.nodes →
      Store.Added s s' node.id parent.id name type → Q node s') :
    Ensures saved (Desk.Revises saved K) (addNode parent name type)
      (fun node => Desk.Revises saved (Q node)) (Desk.Revises saved fun _ => True) := by
  refine revises_of_tree (.addNode ..) <| .bind (R := fun id d => Desk.Revises saved K d ∧
      id ∉ saved.store.nodes ∧ ((copy saved d.session).base = saved.revision →
        (d.store saved).nodes[id]? = none))
    (.takeId fun d hd => ?_) fun id => .write (fun d hd node s' hs hb => ?_) fun d hd =>
      ⟨fun hb => (hd.1.tree hb).1, fun hb => (hd.1.tree hb).1⟩
  · refine ⟨⟨hd.sound.turn .take, hd.tree⟩, fun hid => ?_, fun hb => ?_⟩
    · exact Nat.lt_irrefl _ (hd.sound.tree.below _ hid)
    · exact Std.ExtTreeMap.getElem?_eq_none fun hid =>
        Nat.lt_irrefl _ (hd.sound.copied.below hb _ hid)
  · obtain ⟨hd, fresh, new⟩ := hd
    have ⟨hs, hnode⟩ := Store.new_eq_ok_iff.1 hs
    obtain ⟨revised, hk⟩ := hd.tree hb
    have copied := hd.sound.copied
    have wf := copied.wellFormed hb
    have added := Store.added_of_addNode (new hb) hs
    obtain rfl := Store.id_of_getHandle hnode
    have step : saved.store.Revises (d.store saved) s' :=
      .add added fresh (fits _ hk (Store.mem_nodes_iff.2 added.parent)) named (below _ hk)
    exact ⟨revised.revises hd.sound.tree.wellFormed wf (copied.follows hb) step,
      h _ s' node wf hk fresh added⟩

-- An entry is added to a policy that is new itself.
theorem revises_storeEntry {policy : NodeHandle} {e : Entry} (hname : name ≠ Policy.nodeName) :
    Ensures saved
      (Desk.Revises saved fun s => s.IsList policy.id ∧ policy.id ∉ saved.store.nodes)
      (Policy.storeEntry policy name e)
      (fun _ => Desk.Revises saved fun s => s.IsList policy.id ∧ policy.id ∉ saved.store.nodes)
      (Desk.Revises saved fun _ => True) := by
  let Made (node : NodeHandle) (s : Store) :=
    (s.IsList policy.id ∧ policy.id ∉ saved.store.nodes) ∧ node.id ∉ saved.store.nodes
  have add (type : String) (ht : type ∈ [Policy.allowType, Policy.denyType]) :
      Ensures saved
        (Desk.Revises saved fun s => s.IsList policy.id ∧ policy.id ∉ saved.store.nodes)
        (addNode policy name type) (fun node => Desk.Revises saved (Made node))
        (Desk.Revises saved fun _ => True) := by
    have notList : type ≠ Policy.listType := by rintro rfl; revert ht; decide
    have content : type ∈ Policy.contentTypes :=
      (show [Policy.allowType, Policy.denyType] ⊆ Policy.contentTypes by decide) ht
    exact revises_addNode (absurd · hname)
      (fun s hk _ => ⟨(absurd · notList), fun _ => ⟨hname, hk.1⟩, fun _ => content⟩)
      (fun s hk _ => hk.2)
      fun s s' node wf hk fresh ha => ⟨⟨ha.isList wf hk.1, hk.2⟩, fresh⟩
  have set {node : NodeHandle} {property : String} {value : Value} :
      Ensures saved (Desk.Revises saved (Made node)) (setProperty node property value)
        (fun _ => Desk.Revises saved (Made node)) (Desk.Revises saved fun _ => True) :=
    revises_setProperty (fun s hk _ => hk.2)
      fun s s' wf hk he => ⟨⟨he.isList wf hk.1.1, hk.1.2⟩, hk.2⟩
  refine .bind (R := fun node => Desk.Revises saved (Made node)) ?_ fun node =>
    .bind set fun _ => .bind set fun _ => ?_
  · split
    · exact add _ (by simp)
    · exact add _ (by simp)
  · exact weaken (.forM fun _ _ => set) (fun _ => id) (fun _ d hd => hd.weaken fun _ hk => hk.1)
      fun _ => id

-- The owner is no access control content, so that what it has under the name of a policy, which
-- goes before the new policy comes, is all of a policy and no part of one.
theorem revises_store {p : Policy} :
    Ensures saved (Desk.Revises saved fun s => ¬s.IsContent p.owner.id) p.store
      (fun _ => Desk.Revises saved fun _ => True) (Desk.Revises saved fun _ => True) := by
  let Ready (s : Store) := s.IsControlled p.owner.id ∧ ¬s.IsContent p.owner.id
  have anew : Ensures saved (Desk.Revises saved Ready) (storeAnew p)
      (fun _ => Desk.Revises saved fun _ => True) (Desk.Revises saved fun _ => True) := by
    refine .bind (revises_addNode (Q := fun policy s =>
        s.IsList policy.id ∧ policy.id ∉ saved.store.nodes) (fun _ => rfl)
      (fun s hk _ => ⟨fun _ => ⟨rfl, hk.1⟩, fun h => absurd h (by decide), fun _ => by decide⟩)
      (fun s hk hl => absurd (.inl hl) hk.2) fun s s' policy wf hk fresh ha => ⟨?_, fresh⟩)
      fun policy => ?_
    · have new : s'.nodes[policy.id]? =
          some (.new Policy.nodeName (some p.owner.id) Policy.listType) := by simp [ha.nodes]
      exact (Store.isList_iff new).2 List.mem_cons_self
    · refine weaken (.forM fun b hb => revises_storeEntry fun hn => ?_) (fun _ => id)
        (fun _ d hd => hd.weaken fun _ _ => trivial) fun _ => id
      exact nodeNames_ne (hn ▸ (List.of_mem_zip hb).1)
  have replaced : Ensures saved (Desk.Revises saved Ready) (replaceFormer p)
      (fun _ => Desk.Revises saved fun _ => True) (Desk.Revises saved fun _ => True) := by
    refine .bind (revises_ask (Q := fun former s => Ready s ∧ ∀ f, former = some f →
      s.child? p.owner.id Policy.nodeName = some f.id) fun d wf _ hk former hf =>
        ⟨hk, fun f hsome => child_of_view (hsome ▸ hf)⟩) fun former => ?_
    cases former
    case none   =>
      exact weaken anew (fun d hd => hd.weaken fun _ => And.left) (fun _ _ => id) fun _ => id
    case some f =>
      refine .bind (revises_removeNode (L := Ready)
        (fun s wf tidy hk => tidy.inPlace.not_entry_of_child wf (hk.2 f rfl))
        fun s s' q wf hk hr => ?_) fun _ => anew
      have ⟨controlled, _⟩ := hr.of_child wf (hk.2 f rfl) hk.1.1
      have there := Store.mem_nodes_iff.2 (Store.exists_of_mem_effectiveTypes hk.1.1)
      exact ⟨controlled, fun hc => hk.1.2 ((Store.KeepsKinds.removed hr).content there hc)⟩
  refine .bind (revises_ask (Q := fun (isControlled : Bool) s => ¬s.IsContent p.owner.id ∧
    (isControlled → s.IsControlled p.owner.id)) fun d wf types hk isControlled hc =>
      ⟨hk, fun controlled => ?_⟩) fun isControlled => ?_
  · have := (isType_of_view hc).2.1 controlled
    rwa [types] at this
  cases isControlled
  case true  =>
    exact weaken replaced (fun d hd => hd.weaken fun _ hk => ⟨hk.2 rfl, hk.1⟩) (fun _ _ => id)
      fun _ => id
  case false =>
    have plain : Policy.mixin ∉ Policy.contentTypes := by decide
    refine .bind (revises_addMixin (L := Ready) plain (fun s hk he => absurd (.inr he) hk.1)
      fun s s' wf hk he => ⟨he.mem_effectiveTypes, fun hc => hk.1 ?_⟩) fun _ => replaced
    have kinds : s.KeepsKinds s' := .edited he fun _ _ _ => Store.mem_types_of_addMixin plain
    exact kinds.content (he.mem (Store.mem_nodes_iff.2 hc.exists)) hc

theorem revises_setPolicy {path : String} {p : Policy} :
    Ensures saved
      (Desk.Revises saved fun s => ∀ o, s.handle? p.owner.id = some o → o = p.owner)
      (Editor.setPolicy path p) (fun _ => Desk.Revises saved fun _ => True)
      (Desk.Revises saved fun _ => True) := by
  refine .bind (revises_ask (Q := fun node s =>
    p.owner.path = node.path → ¬s.IsContent p.owner.id) fun d wf types hk node hnode same =>
      not_content_of_target wf types hk hnode same) fun node => ?_
  split
  case isTrue =>
    exact .bind (R := fun _ => Desk.Revises saved fun s => ¬s.IsContent p.owner.id)
      (.throw fun d hd => hd.weaken fun _ _ => trivial) fun _ => .lift revises_store
  case isFalse hpath =>
    exact .lift <| weaken revises_store (fun d hd => hd.weaken fun _ hk => hk (not_not.1 hpath))
      (fun _ _ => id) fun _ => id

theorem revises_removePolicy {path : String} :
    Ensures saved (Desk.Revises saved fun _ => True) (Editor.removePolicy path)
      (fun _ => Desk.Revises saved fun _ => True) (Desk.Revises saved fun _ => True) := by
  refine .bind (revises_ask (Q := fun policy s => ∃ owner, s.child? owner Policy.nodeName =
    some policy.id) fun d wf types _ policy hp => ?_) fun policy => .lift <|
      revises_removeNode (fun s wf tidy hk => ?_) fun _ _ _ _ _ _ => trivial
  · obtain ⟨owner, _, hp⟩ := bind_eq_ok_iff.1 hp
    obtain ⟨found, hf, hp⟩ := bind_eq_ok_iff.1 hp
    cases found
    case none   => exact nomatch hp
    case some f =>
      obtain rfl := Except.ok.inj hp
      exact ⟨owner.id, child_of_view (Policy.child_of_node (mapError_eq_ok_iff.1 hf))⟩
  · obtain ⟨_, hc⟩ := hk
    exact tidy.inPlace.not_entry_of_child wf hc

end Ensures

-- What is done in a session whose policies are written with the editor, and which leaves alone
-- everything else that is access control content and makes no other node look like it. Handles come
-- from the tree, so the one of an owner that is there has the path where it stands.
inductive Curates (tree : Store) : {α ε : Type} → SessionM ε α → Prop
  | setPolicy (path : String) {p : Policy}
    (genuine : ∀ o, tree.handle? p.owner.id = some o → o = p.owner) :
    Curates tree (Editor.setPolicy path p)
  | removePolicy (path : String) : Curates tree (Editor.removePolicy path)
  | addNode {parent : NodeHandle} (outside : ¬tree.IsContent parent.id) {name type : String}
    (named : name ≠ Policy.nodeName) (plain : type ∉ Policy.contentTypes) :
    Curates tree (SessionM.addNode parent name type)
  | addMixin {node : NodeHandle} (outside : ¬tree.IsContent node.id) {mixin : String}
    (plain : mixin ∉ Policy.contentTypes) : Curates tree (SessionM.addMixin node mixin)
  | setProperty {node : NodeHandle} (outside : ¬tree.IsContent node.id) (name : String)
    (value : Value) : Curates tree (SessionM.setProperty node name value)
  | removeProperty {node : NodeHandle} (outside : ¬tree.IsContent node.id) (name : String) :
    Curates tree (SessionM.removeProperty node name)
  | removeNode {node : NodeHandle} (outside : ¬tree.IsContent node.id) :
    Curates tree (SessionM.removeNode node)
  | ask {α ε : Type} (question : TreeView → Except ε α) : Curates tree (SessionM.ask question)

namespace Curates

variable {work : SessionM ε α} {desk : Desk}

theorem composed {tree : Store} (h : work.Curates tree) : work.Composed := by
  cases h
  case setPolicy      => exact composed_setPolicy
  case removePolicy   => exact composed_removePolicy
  case addNode        => exact .addNode ..
  case addMixin       => exact .addMixin ..
  case setProperty    => exact .setProperty ..
  case removeProperty => exact .removeProperty ..
  case removeNode     => exact .removeNode _
  case ask            => exact .ask _

theorem revises (h : work.Curates (desk.session.store saved))
    (hd : desk.Revises saved fun _ => True) :
    (work.run' saved desk).2.Revises saved fun _ => True := by
  rw [Desk.store_eq] at h
  have ensured {β δ : Type} {work : SessionM δ β} {K : Store → Prop} (hk : K (desk.store saved))
      (h : Ensures saved (Desk.Revises saved K) work (fun _ => Desk.Revises saved fun _ => True)
        (Desk.Revises saved fun _ => True)) :
      (work.run' saved desk).2.Revises saved fun _ => True :=
    h.always ⟨hd.sound, fun hb => ⟨(hd.tree hb).1, hk⟩⟩
  have entry {node : NodeHandle} (s : Store) (outside : ¬s.IsContent node.id)
      (he : s.IsEntry node.id) : node.id ∉ saved.store.nodes := absurd (.inr he) outside
  cases h
  case setPolicy genuine          => exact ensured genuine .revises_setPolicy
  case removePolicy               => exact ensured trivial .revises_removePolicy
  case addMixin outside _ plain   =>
    exact ensured outside (.revises_addMixin plain entry fun _ _ _ _ _ => trivial)
  case setProperty outside _ _    =>
    exact ensured outside (.revises_setProperty entry fun _ _ _ _ _ => trivial)
  case removeProperty outside _   => exact ensured outside (.revises_removeProperty entry)
  case removeNode node outside    =>
    exact ensured (K := fun s => ¬s.IsContent node.id) outside <|
      .revises_removeNode (fun _ _ _ hk he => hk (.inr he)) fun _ _ _ _ _ _ => trivial
  case addNode parent outside _ _ named plain =>
    exact ensured (K := fun s => ¬s.IsContent parent.id) outside <|
      .revises_addNode (absurd · named) (fun _ hk _ => .of_plain hk plain)
        (fun _ hk hl => absurd (.inl hl) hk) fun _ _ _ _ _ _ _ => trivial
  case ask                        => rwa [run'_ask]

end Curates

end SessionM

end PolicyTree
