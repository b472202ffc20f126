import PolicyTree.Proofs.Policy.Placement
import PolicyTree.Proofs.Tree.Working

namespace PolicyTree

structure WorkingCopy.InPlace (saved : Saved) (c : WorkingCopy) : Prop where
  placed : c.base = saved.revision → c.store.InPlace
  kinds  : c.base = saved.revision → saved.store.KeepsKinds c.store

structure Desk.InPlace (saved : Saved) (desk : Desk) : Prop where
  sound : desk.Sound saved
  tree  : saved.store.InPlace
  copy  : ∀ c, desk.session.working = some c → c.InPlace saved

variable {saved : Saved} {desk : Desk} {node parent : NodeHandle} {name type : String}

theorem Desk.InPlace.copied (h : desk.InPlace saved) :
    (SessionM.copy saved desk.session).InPlace saved := by
  unfold SessionM.copy
  cases hw : desk.session.working
  case none   => exact ⟨fun _ => h.tree, fun _ => .refl⟩
  case some c => exact h.copy c hw

namespace SessionM

variable {α : Type} {P : Desk → Prop} {work : SessionM TreeError α}

-- Soundness is kept by all work, so only the places are left to be looked at.
theorem Ensures.inPlace (hw : Composed work) (hP : ∀ d, P d → d.InPlace saved)
    (h : Ensures saved P work (fun _ d => ∀ c, d.session.working = some c → c.InPlace saved)
      fun d => ∀ c, d.session.working = some c → c.InPlace saved) :
    Ensures saved P work (fun _ => Desk.InPlace saved) (Desk.InPlace saved) := by
  intro desk hd
  have start := hP desk hd
  have h := h desk hd
  have turns : desk.Turns saved _ := hw.turns
  have sound := start.sound.turns turns
  rcases hr : work.run' saved desk with ⟨_ | _, desk'⟩ <;> rw [hr] at h sound <;>
    exact ⟨sound, start.tree, h⟩

theorem Ensures.inPlace_write {call : Call} {change : Store → Except TreeError (α × Store)}
    (hP : ∀ d, P d → d.InPlace saved)
    (h : ∀ d, P d → ∀ c, c = copy saved d.session → c.base = saved.revision → c.store.WellFormed →
      c.store.InPlace → ∀ a s, change c.store = .ok (a, s) → s.InPlace ∧
        Store.KeepsKinds c.store s ∧
        ∀ x ∈ saved.store.nodes, x ∈ s.nodes → x ∈ c.store.nodes) :
    Ensures saved P (SessionM.write call change)
      (fun _ d => ∀ c, d.session.working = some c → c.InPlace saved)
      fun d => ∀ c, d.session.working = some c → c.InPlace saved := by
  refine .write (fun d hd a s hs c hc => ?_) fun d hd => ?_
  · have start := (hP d hd).copied
    obtain rfl := Option.some_inj.1 hc
    have after hb := h d hd _ rfl hb ((hP d hd).sound.copied.wellFormed hb) (start.placed hb) a s hs
    refine ⟨fun hb => (after hb).1, fun hb => ?_⟩
    have ⟨_, kinds, old⟩ := after hb
    exact (start.kinds hb).trans kinds fun {x} => old x
  · exact ⟨(hP d hd).copy, fun c hc => Option.some_inj.1 hc ▸ (hP d hd).copied⟩

theorem Ensures.inPlace_addMixin {mixin : String} (hm : mixin ∉ Policy.contentTypes) :
    Ensures saved (Desk.InPlace saved) (addMixin node mixin) (fun _ => Desk.InPlace saved)
      (Desk.InPlace saved) := by
  refine Ensures.inPlace (.addMixin ..) (fun _ => id) <| .inPlace_write (fun _ => id) ?_
  intro d _ c _ _ wf placed a s hs
  have edited := Store.edited_of_addMixin (unit_eq_ok_iff.1 hs)
  have kinds : Store.KeepsKinds c.store s := .edited edited fun _ _ _ =>
    Store.mem_types_of_addMixin hm
  exact ⟨placed.edited wf edited kinds, kinds, fun _ _ => edited.mem⟩

theorem Ensures.inPlace_setProperty {value : Value} :
    Ensures saved (Desk.InPlace saved) (setProperty node name value) (fun _ => Desk.InPlace saved)
      (Desk.InPlace saved) := by
  refine Ensures.inPlace (.setProperty ..) (fun _ => id) <| .inPlace_write (fun _ => id) ?_
  intro d _ c _ _ wf placed a s hs
  have edited := Store.edited_of_setProperty (unit_eq_ok_iff.1 hs)
  have kinds : Store.KeepsKinds c.store s := .edited edited fun _ _ _ _ => id
  exact ⟨placed.edited wf edited kinds, kinds, fun _ _ => edited.mem⟩

theorem Ensures.inPlace_removeProperty :
    Ensures saved (Desk.InPlace saved) (removeProperty node name) (fun _ => Desk.InPlace saved)
      (Desk.InPlace saved) := by
  refine Ensures.inPlace (.removeProperty ..) (fun _ => id) <| .inPlace_write (fun _ => id) ?_
  intro d _ c _ _ wf placed a s hs
  have edited := Store.edited_of_removeProperty hs
  have kinds : Store.KeepsKinds c.store s := .edited edited fun _ _ _ _ => id
  exact ⟨placed.edited wf edited kinds, kinds, fun _ _ => edited.mem⟩

theorem Ensures.inPlace_removeNode :
    Ensures saved (Desk.InPlace saved) (removeNode node) (fun _ => Desk.InPlace saved)
      (Desk.InPlace saved) := by
  refine Ensures.inPlace (.removeNode _) (fun _ => id) <| .inPlace_write (fun _ => id) ?_
  intro d _ c _ _ wf placed a s hs
  obtain ⟨p, removed⟩ := Store.removed_of_removeNode (unit_eq_ok_iff.1 hs)
  exact ⟨placed.removed wf removed, .removed removed, fun _ _ => removed.mem⟩

theorem Ensures.inPlace_addNode {P : Desk → Prop} (hP : ∀ d, P d → d.InPlace saved)
    (fits : ∀ d, P d → ∀ c, c = copy saved d.session → c.base = saved.revision →
      parent.id ∈ c.store.nodes → c.store.Fits parent.id name type) :
    Ensures saved P (addNode parent name type) (fun _ => Desk.InPlace saved)
      (Desk.InPlace saved) := by
  refine Ensures.inPlace (.addNode ..) hP <| .bind
    (R := fun id d => d.InPlace saved ∧ id ∉ saved.store.nodes ∧ ∀ c, c = copy saved d.session →
      c.base = saved.revision → c.store.nodes[id]? = none ∧
        (parent.id ∈ c.store.nodes → c.store.Fits parent.id name type))
    (.takeId fun d hd => ?_) fun id => .inPlace_write (fun _ hd => hd.1) ?_
  · have start := hP d hd
    refine ⟨⟨start.sound.turn .take, start.tree, start.copy⟩, fun hid => ?_, fun c hc hb =>
      ⟨?_, fits d hd c hc hb⟩⟩
    · exact Nat.lt_irrefl _ (start.sound.tree.below _ hid)
    · subst hc
      exact Std.ExtTreeMap.getElem?_eq_none fun hid =>
        Nat.lt_irrefl _ (start.sound.copied.below hb _ hid)
  · intro d hd c hc hb wf placed a s hs
    have ⟨hs, _⟩ := Store.new_eq_ok_iff.1 hs
    obtain ⟨_, new, hfits⟩ := hd
    obtain ⟨fresh, fits⟩ := hfits c hc hb
    have added := Store.added_of_addNode fresh hs
    refine ⟨placed.added wf added (fits (Store.mem_nodes_iff.2 added.parent)), .added added,
      fun x hx hs => (added.mem hs).resolve_right ?_⟩
    rintro rfl
    exact new hx

-- What is known of a node from then on.

theorem Ensures.bears_addNode {P : Desk → Prop} (hP : ∀ d, P d → d.InPlace saved) :
    Ensures saved P (addNode parent name type)
      (fun node => Desk.Bears saved node.id (type ∈ Store.effectiveTypes · .initial node.id))
      fun _ => True := by
  refine .bind (R := fun id d => id.value < d.nextId.value ∧ ∀ c, c = copy saved d.session →
      c.base = saved.revision → c.store.nodes[id]? = none) (.takeId fun d hd => ?_) fun id =>
    .write (fun d hd node s hs hb => ?_) fun _ _ => ⟨trivial, trivial⟩
  · refine ⟨Nat.lt_succ_self _, fun c hc hb => ?_⟩
    subst hc
    exact Std.ExtTreeMap.getElem?_eq_none fun hid =>
      Nat.lt_irrefl _ ((hP d hd).sound.copied.below hb _ hid)
  · have ⟨hs, hnode⟩ := Store.new_eq_ok_iff.1 hs
    have added := Store.added_of_addNode (hd.2 _ rfl hb) hs
    have hid := Store.id_of_getHandle hnode
    have hn : s.nodes[id]? = some (.new name (some parent.id) type) := by simp [added.nodes]
    rw [hid]
    refine ⟨hd.1, fun _ => ?_⟩
    show type ∈ s.effectiveTypes .initial id
    rw [Store.mem_effectiveTypes hn]
    exact NodeTypes.mem_initial_expand.2 (.inl (by simp [Node.types, Node.new]))

theorem Ensures.bears_addMixin {P : Desk → Prop} {mixin : String}
    (hP : ∀ d, P d → d.InPlace saved) :
    Ensures saved P (addMixin node mixin)
      (fun _ => Desk.Bears saved node.id (mixin ∈ Store.effectiveTypes · .initial node.id))
      fun _ => True := by
  refine .write (fun d hd _ s hs hb => ?_) fun _ _ => ⟨trivial, trivial⟩
  have edited := Store.edited_of_addMixin (unit_eq_ok_iff.1 hs)
  obtain ⟨n, hn, _⟩ := edited.node
  have below := (hP d hd).sound.copied.below hb
  refine ⟨below _ (Store.mem_nodes_iff.2 ⟨n, hn⟩), fun _ => ?_⟩
  show mixin ∈ s.effectiveTypes .initial node.id
  have hn' := edited.nodes node.id
  simp only [hn, if_true, Option.map_some] at hn'
  rw [Store.mem_effectiveTypes hn']
  refine NodeTypes.mem_initial_expand.2 (.inl (List.mem_cons_of_mem _ ?_))
  dsimp only
  split <;> simp [*]

-- What is answered of a type is so.
theorem isType_of_view {session : Session} {isType : Bool}
    (h : (session.view saved).isType node type = .ok isType) :
    node.id ∈ (copy saved session).store.nodes ∧
      (isType ↔ type ∈ (copy saved session).store.effectiveTypes saved.types node.id) := by
  have hs : session.store saved = (copy saved session).store := by
    unfold Session.store copy
    cases session.working <;> rfl
  change session.faults.answer .isType _ = _ at h
  rw [Faults.answer, bind_eq_ok_iff] at h
  obtain ⟨_, _, h⟩ := h
  rw [hs] at h
  simp only [Store.view, bind_eq_ok_iff, pure_eq_ok_iff, Store.get_eq_ok_iff] at h
  obtain ⟨n, hn, rfl⟩ := h
  refine ⟨Store.mem_nodes_iff.2 ⟨n, hn⟩, ?_⟩
  rw [Store.mem_effectiveTypes hn, decide_eq_true_iff]

theorem Ensures.bears_isType {P : Desk → Prop} (hP : ∀ d, P d → d.InPlace saved) :
    Ensures saved P (SessionM.ask fun tree => tree.isType node type)
      (fun isType d => isType →
        d.Bears saved node.id (type ∈ Store.effectiveTypes · .initial node.id))
      fun _ => True := by
  refine .ask (fun d hd isType ht his hb => ?_) fun _ _ => trivial
  have sound := (hP d hd).sound
  have ⟨there, h⟩ := isType_of_view ht
  rw [sound.tree.types] at h
  exact ⟨sound.copied.below hb _ there, fun _ => h.1 his⟩

end SessionM

structure Desk.Marked (saved : Saved) (x : NodeId) (type : String) (desk : Desk) : Prop where
  inPlace : desk.InPlace saved
  bears   : desk.Bears saved x (type ∈ Store.effectiveTypes · .initial x)

namespace SessionM

theorem Ensures.marked {α : Type} {work : SessionM TreeError α} {x : NodeId} (hw : Composed work)
    (h : Ensures saved (Desk.Marked saved x type) work (fun _ => Desk.InPlace saved)
      (Desk.InPlace saved)) :
    Ensures saved (Desk.Marked saved x type) work (fun _ => Desk.Marked saved x type)
      (Desk.InPlace saved) := by
  have bears : Ensures saved (fun d => d.Sound saved ∧
      d.Bears saved x (type ∈ Store.effectiveTypes · .initial x)) work _ _ :=
    hw.ensures fun {d d'} hd ht => ⟨hd.1.turns ht, hd.2.turns (fun wf hw hc hs ht => ?_) hd.1 ht⟩
  · have bears : Ensures saved (Desk.Marked saved x type) work _ _ :=
      bears.weaken (fun _ hd => ⟨hd.inPlace.sound, hd.bears⟩) (fun _ _ => id) fun _ => id
    exact (h.and bears).weaken (fun _ => id) (fun _ _ hd => ⟨hd.1, hd.2.2⟩) fun _ => And.left
  · have ⟨_, hn⟩ := Store.mem_nodes_iff.1 hc
    have ⟨_, hn'⟩ := Store.mem_nodes_iff.1 hs
    exact (Store.Follows.written wf hw).mem_effectiveTypes hn hn' ht

theorem Ensures.of_marked {α : Type} {work : SessionM TreeError α} {Q : α → Desk → Prop}
    {E : Desk → Prop} {x : NodeId} (h : Ensures saved (Desk.InPlace saved) work Q E) :
    Ensures saved (Desk.Marked saved x type) work Q E :=
  h.weaken (fun _ hd => hd.inPlace) (fun _ _ => id) fun _ => id

-- Names of entries begin differently from the name of a policy.
theorem freeName_ne {used : List String} {isAllow : Bool} {k : Nat} :
    Policy.freeName used (Policy.baseName isAllow) k ≠ Policy.nodeName := by
  have begins (rest : String) : Policy.baseName isAllow ++ rest ≠ Policy.nodeName := fun h => by
    have := congrArg String.toList h
    cases isAllow <;> simp [Policy.baseName, Policy.nodeName] at this
  have plain : Policy.baseName isAllow ≠ Policy.nodeName := by cases isAllow <;> decide
  have go (tries k : Nat) :
      Policy.freeName.go used (Policy.baseName isAllow) tries k ≠ Policy.nodeName := by
    induction tries generalizing k
    case zero => exact begins _
    case succ tries hi =>
      rw [Policy.freeName.go]
      split
      · exact hi _
      · exact begins _
  rw [Policy.freeName]
  split
  · exact go _ _
  · exact plain

theorem nodeNames_ne {allows : List Bool} : Policy.nodeName ∉ Policy.nodeNames allows := by
  have go (used : List String) (k : Nat) :
      Policy.nodeName ∉ Policy.nodeNames.go used k allows := by
    induction allows generalizing used k
    case nil => simp [Policy.nodeNames.go]
    case cons isAllow allows hi =>
      rw [Policy.nodeNames.go, List.mem_cons, not_or]
      exact ⟨freeName_ne.symm, hi _ _⟩
  exact go _ _

theorem Ensures.marked_storeEntry {policy : NodeHandle} {e : Entry}
    (hname : name ≠ Policy.nodeName) :
    Ensures saved (Desk.Marked saved policy.id Policy.listType) (Policy.storeEntry policy name e)
      (fun _ => Desk.Marked saved policy.id Policy.listType) (Desk.InPlace saved) := by
  have add (type : String) (ht : type ∈ [Policy.allowType, Policy.denyType]) :
      Ensures saved (Desk.Marked saved policy.id Policy.listType) (addNode policy name type)
        (fun _ => Desk.Marked saved policy.id Policy.listType) (Desk.InPlace saved) := by
    have notList : type ≠ Policy.listType := by rintro rfl; revert ht; decide
    have content : type ∈ Policy.contentTypes :=
      (show [Policy.allowType, Policy.denyType] ⊆ Policy.contentTypes by decide) ht
    exact .marked (.addNode ..) <| .inPlace_addNode (fun _ hd => hd.inPlace)
      fun d hd c hc hb there =>
        ⟨(absurd · notList), fun _ => ⟨hname, (hc ▸ hd.bears (hc ▸ hb)).2 there⟩, fun _ => content⟩
  have set {node : NodeHandle} {property : String} {value : Value} :
      Ensures saved (Desk.Marked saved policy.id Policy.listType) (setProperty node property value)
        (fun _ => Desk.Marked saved policy.id Policy.listType) (Desk.InPlace saved) :=
    .marked (.setProperty ..) (.of_marked .inPlace_setProperty)
  refine .bind (R := fun _ => Desk.Marked saved policy.id Policy.listType) ?_ fun node =>
    .bind set fun _ => .bind set fun _ => .forM fun _ _ => set
  split
  · exact add _ (by simp)
  · exact add _ (by simp)

-- The owner gets the mixin first, then what it has under the name of a policy goes, and the policy
-- comes in its place with its entries.
theorem Ensures.inPlace_store {p : Policy} :
    Ensures saved (Desk.InPlace saved) p.store (fun _ => Desk.InPlace saved)
      (Desk.InPlace saved) := by
  have anew : Ensures saved (Desk.Marked saved p.owner.id Policy.mixin) (storeAnew p)
      (fun _ => Desk.InPlace saved) (Desk.InPlace saved) := by
    refine .bind (R := fun policy => Desk.Marked saved policy.id Policy.listType) ?_
      fun policy => ?_
    · have placed : Ensures saved (Desk.Marked saved p.owner.id Policy.mixin)
          (addNode p.owner Policy.nodeName Policy.listType) _ _ :=
        .inPlace_addNode (fun _ hd => hd.inPlace) fun d hd c hc hb there =>
          ⟨fun _ => ⟨rfl, (hc ▸ hd.bears (hc ▸ hb)).2 there⟩, fun h => absurd h (by decide),
            fun _ => by decide⟩
      exact (placed.and (.bears_addNode fun _ hd => hd.inPlace)).weaken (fun _ => id)
        (fun _ _ hd => ⟨hd.1, hd.2⟩) fun _ => And.left
    · refine Ensures.weaken (.forM fun b hb => .marked_storeEntry fun hn => ?_) (fun _ => id)
        (fun _ _ hd => hd.inPlace) fun _ => id
      exact nodeNames_ne (hn ▸ (List.of_mem_zip hb).1)
  have replaced : Ensures saved (Desk.Marked saved p.owner.id Policy.mixin) (replaceFormer p)
      (fun _ => Desk.InPlace saved) (Desk.InPlace saved) := by
    refine .bind (R := fun _ => Desk.Marked saved p.owner.id Policy.mixin)
      (.ask (fun _ hd _ _ => hd) fun _ hd => hd.inPlace) fun former => ?_
    cases former
    case none   => exact anew
    case some f =>
      exact .bind (.marked (.removeNode f) (.of_marked .inPlace_removeNode)) fun _ => anew
  have asked : Ensures saved (Desk.InPlace saved)
      (SessionM.ask fun tree => tree.isType p.owner Policy.mixin)
      (fun _ => Desk.InPlace saved) (Desk.InPlace saved) :=
    .ask (fun _ hd _ _ => hd) fun _ => id
  refine .bind (R := fun isControlled d => d.InPlace saved ∧ (isControlled →
      d.Bears saved p.owner.id (Policy.mixin ∈ Store.effectiveTypes · .initial p.owner.id)))
    ((asked.and (.bears_isType fun _ => id)).weaken (fun _ => id) (fun _ _ => id) fun _ => And.left)
    fun isControlled => ?_
  cases isControlled
  case true  => exact replaced.weaken (fun _ hd => ⟨hd.1, hd.2 rfl⟩) (fun _ _ => id) fun _ => id
  case false =>
    have mixed : Ensures saved (Desk.InPlace saved) (addMixin p.owner Policy.mixin) _ _ :=
      (Ensures.inPlace_addMixin (by decide)).and (.bears_addMixin fun _ => id)
    exact .bind (R := fun _ => Desk.Marked saved p.owner.id Policy.mixin)
      (mixed.weaken (fun _ hd => hd.1) (fun _ _ hd => ⟨hd.1, hd.2⟩) fun _ => And.left)
      fun _ => replaced

theorem Ensures.inPlace_setPolicy {path : String} {p : Policy} :
    Ensures saved (Desk.InPlace saved) (Editor.setPolicy path p) (fun _ => Desk.InPlace saved)
      (Desk.InPlace saved) := by
  refine .bind (R := fun _ => Desk.InPlace saved) (.ask (fun _ hd _ _ => hd) fun _ => id)
    fun node => ?_
  split
  · exact .bind (R := fun _ => Desk.InPlace saved) (.throw fun _ => id)
      fun _ => .lift .inPlace_store
  · exact .lift .inPlace_store

theorem Ensures.inPlace_removePolicy {path : String} :
    Ensures saved (Desk.InPlace saved) (Editor.removePolicy path) (fun _ => Desk.InPlace saved)
      (Desk.InPlace saved) :=
  .bind (R := fun _ => Desk.InPlace saved) (.ask (fun _ hd _ _ => hd) fun _ => id) fun _ =>
    .lift .inPlace_removeNode

end SessionM

end PolicyTree
