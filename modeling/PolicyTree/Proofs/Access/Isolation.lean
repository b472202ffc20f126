import PolicyTree.Proofs.Access.Removing
import PolicyTree.Proofs.Distinct

namespace PolicyTree

-- What is listed of entries that are stored.

namespace Policy

variable {o : NodeHandle} {p q : Policy} {es : List Entry} {l : List NodeHandle}
  {f : NodeHandle → Except AccessError Entry}

theorem contents_foldl_add : (es.foldl add (empty o)).entries.map Entry.content =
    (es.map Entry.content).eraseDups := by
  induction es using List.reverseRecOn
  case nil => rfl
  case append_singleton es e hi =>
    have listed : (es.foldl add (empty o)).contains e =
        (es.map Entry.content).contains e.content := by
      rw [Bool.eq_iff_iff, List.contains_iff_mem, ← List.mem_eraseDups, ← hi]
      simp [contains, Entry.same]
    rw [List.foldl_concat, List.map_append, List.map_singleton, eraseDups_concat, ← hi, ← listed,
      add]
    split <;> simp

theorem foldlM_add_eq (hq : l.foldlM (fun p e => p.add <$> f e) p = .ok q) :
    q = (l.filterMap fun e => (f e).toOption).foldl add p := by
  induction l generalizing p
  case nil => exact (Except.ok.inj hq).symm
  case cons e l hi =>
    simp only [List.foldlM_cons, bind_eq_ok_iff, map_eq_ok_iff] at hq
    obtain ⟨_, ⟨entry, he, rfl⟩, hq⟩ := hq
    rw [hi hq, List.filterMap_cons, he]
    rfl

end Policy

-- What lists of contents are compared by.
instance : DecidableEq (String × PrivilegeBits × Bool × Restrictions) := inferInstance

namespace Store

-- The entries that are stored for a node, each as it is read.
def storedAt (s : Store) (t : NodeTypes) (r : Registry) (owner : NodeId) : List Entry :=
  match s.policyOf? t owner, s.handle? owner with
  | some policy, some o => ((s.entriesOf t policy).filterMap s.handle?).filterMap fun e =>
      (Policy.readEntry (s.view t) r o e).toOption
  | _, _ => []

-- What is stored for some principals at a node, in order. What is said again counts for nothing.
def storedFor (s : Store) (t : NodeTypes) (r : Registry) (ps : PrincipalSet) (owner : NodeId) :
    List (String × PrivilegeBits × Bool × Restrictions) :=
  (((s.storedAt t r owner).filter fun e => ps.contains e.principal).map Entry.content).eraseDups

-- The same level by level, from a node up to the root.
def levelsFor (s : Store) (t : NodeTypes) (r : Registry) (ps : PrincipalSet) (id : NodeId) :
    Option (List (List (String × PrivilegeBits × Bool × Restrictions))) :=
  (s.lineage? id).map fun way => way.map fun x => s.storedFor t r ps x.1

end Store

-- Entries that decide alike.

-- Two entries with the same to say of the same places, each seen from a node of its own tree.
structure Entry.Alike (g g' : NodeId) (e e' : Entry) : Prop where
  content : e.content = e'.content
  place   : e.owner.path = e'.owner.path
  isLocal : e.isLocal g = e'.isLocal g'

namespace Entry.Alike

variable {g g' : NodeId} {e e' : Entry} (h : e.Alike g g' e')

include h

theorem principal : e.principal = e'.principal := congrArg (·.1) h.content

theorem bits : e.bits = e'.bits := congrArg (·.2.1) h.content

theorem isAllow : e.isAllow = e'.isAllow := congrArg (·.2.2.1) h.content

theorem covers (path : String) : e.covers path = e'.covers path := by
  have restrictions : e.restrictions = e'.restrictions := congrArg (·.2.2.2) h.content
  rw [Entry.covers, Entry.covers, glob, glob, h.place, restrictions]

theorem atParent (i : Item) : Item.atParent { i with node := g } e =
    Item.atParent { i with node := g' } e' := by
  simp only [Item.atParent, h.isLocal]
  cases Path.parent i.path <;> simp [h.covers]

end Entry.Alike

section

variable {g g' : NodeId} {es es' : List Entry} {counts counts' : Entry → Bool} {isAllow : Bool}

theorem decided_congr (alike : List.Forall₂ (Entry.Alike g g') es es')
    (hc : ∀ e e', Entry.Alike g g' e e' → counts e = counts' e') :
    decided counts isAllow es = decided counts' isAllow es' := by
  have way (b : Nat) :
      (decider counts b es).map Entry.isAllow = (decider counts' b es').map Entry.isAllow := by
    induction alike
    case nil => rfl
    case cons e e' _ _ h _ hi =>
      simp only [decider, List.find?_cons, hc e e' h, h.bits] at hi ⊢
      split
      · simp [h.isAllow]
      · exact hi
  have mem {counts : Entry → Bool} {es : List Entry} {b : Nat} : b ∈ decided counts isAllow es ↔
      (decider counts b es).map Entry.isAllow = some isAllow := by
    rw [mem_decided, Option.map_eq_some_iff]
  ext b
  rw [mem, mem, way]

theorem evaluate_alike (alike : List.Forall₂ (Entry.Alike g g') es es') (i : Item) :
    evaluate es { i with node := g } = evaluate es' { i with node := g' } := by
  have item (isAllow : Bool) : decided (Item.atItem { i with node := g }) isAllow es =
      decided (Item.atItem { i with node := g' }) isAllow es' :=
    decided_congr alike fun _ _ h => h.covers i.path
  have parent (isAllow : Bool) : decided (Item.atParent { i with node := g }) isAllow es =
      decided (Item.atParent { i with node := g' }) isAllow es' :=
    decided_congr alike fun _ _ h => h.atParent i
  rw [evaluate_eq, evaluate_eq, settled, settled, item, item, parent, parent]

theorem byPrincipal_alike {ps : PrincipalSet} {levels levels' : List (List Entry)}
    (alike : List.Forall₂ (List.Forall₂ (Entry.Alike g g')) levels levels') :
    List.Forall₂ (Entry.Alike g g') (Collection.byPrincipal ps levels)
      (Collection.byPrincipal ps levels') := by
  have names : List.Forall₂ (· = ·) ps.names ps.names := List.forall₂_refl _
  refine List.rel_flatMap names fun name _ hname => ?_
  subst hname
  refine List.rel_flatMap alike fun es es' h => List.rel_filter (fun e e' h => ?_) h
  simp [h.principal]

end

namespace Store

variable {s s' : Store} {t : NodeTypes} {r : Registry} {ps : PrincipalSet} {ns ms : List String}
  {nss : List (List String)} {id x x' g g' : NodeId} {ids ids' : List NodeId}

namespace WellFormed

variable (h : s.WellFormed)

include h

-- What is listed for some principals at a node is what is stored for them.
theorem contents_listAt (hs : s.Stands ns id) (hm : ¬s.Malformed t r id) :
    ((s.listAt t r id).filter fun e => ps.contains e.principal).map Entry.content =
      s.storedFor t r ps id := by
  have ⟨n, hn⟩ := h.mem_of_stands hs
  have ⟨list, hl⟩ := (h.load_isOk_iff (o := ⟨id, Path.ofNames ns⟩) hn).2 hm
  have whose (es : List Entry) : (es.filter fun e => ps.contains e.principal).map Entry.content =
      (es.map Entry.content).filter fun c => ps.contains c.1 := by
    rw [List.filter_map]
    rfl
  rw [storedFor, whose, whose, eraseDups_filter]
  congr 1
  rw [listAt, storedAt, h.handle_eq hs, Option.map_some, hl]
  rw [Policy.load_eq h hn] at hl
  cases hp : s.policyOf? t id <;> simp only [hp] at hl
  case none =>
    obtain rfl := Except.ok.inj hl
    rfl
  case some policy =>
    obtain ⟨q, hq, rfl⟩ := map_eq_ok_iff.1 hl
    rw [Policy.foldlM_add_eq hq, Policy.contents_foldl_add]

end WellFormed

variable (h : s.WellFormed) (h' : s'.WellFormed)

include h h'

-- Nodes at the same place with the same stored for some principals have lists that are alike.
theorem listAt_alike (hg : s.Stands ns g) (hg' : s'.Stands ns g') (hx : s.Stands ms x)
    (hx' : s'.Stands ms x') (hm : ¬s.Malformed t r x) (hm' : ¬s'.Malformed t r x')
    (same : s.storedFor t r ps x = s'.storedFor t r ps x') :
    List.Forall₂ (Entry.Alike g g') ((s.listAt t r x).filter fun e => ps.contains e.principal)
      ((s'.listAt t r x').filter fun e => ps.contains e.principal) := by
  have own : x = g ↔ x' = g' := by
    constructor
    case mp =>
      rintro rfl
      exact h'.stands_inj hx' (h.stands_unique hx hg ▸ hg')
    case mpr =>
      rintro rfl
      exact h.stands_inj hx (h'.stands_unique hx' hg' ▸ hg)
  rw [← h.contents_listAt hx hm, ← h'.contents_listAt hx' hm', ← List.forall₂_eq_eq_eq,
    List.forall₂_map_left_iff, List.forall₂_map_right_iff, List.forall₂_iff_zip] at same
  obtain ⟨length, contents⟩ := same
  refine List.forall₂_iff_zip.2 ⟨length, fun {e e'} he => ?_⟩
  have ⟨listed, listed'⟩ := List.of_mem_zip he
  have owner := h.owner_of_listAt hx (List.mem_filter.1 listed).1
  have owner' := h'.owner_of_listAt hx' (List.mem_filter.1 listed').1
  exact ⟨contents he, by rw [owner, owner'], by simp [Entry.isLocal, owner, owner', own]⟩

theorem entriesOn_alike (hg : s.Stands ns g) (hg' : s'.Stands ns g')
    (hw : List.Forall₂ s.Stands nss ids) (hw' : List.Forall₂ s'.Stands nss ids')
    (readable : ∀ x, ¬s.Malformed t r x) (readable' : ∀ x, ¬s'.Malformed t r x)
    (same : ids.map (s.storedFor t r ps) = ids'.map (s'.storedFor t r ps)) :
    List.Forall₂ (Entry.Alike g g') (s.entriesOn t r ps ids) (s'.entriesOn t r ps ids') := by
  rw [← byPrincipal_eq, ← byPrincipal_eq]
  refine byPrincipal_alike ?_
  induction hw generalizing ids'
  case nil =>
    obtain rfl := List.forall₂_nil_left_iff.1 hw'
    exact .nil
  case cons ms x nss ids hx _ hi =>
    obtain ⟨x', ids', hx', onward, rfl⟩ := List.forall₂_cons_left_iff.1 hw'
    obtain ⟨own, above⟩ := List.cons_eq_cons.1 same
    exact .cons (listAt_alike h h' hg hg' hx hx' (readable x) (readable' x') own) (hi onward above)

theorem decideAfresh_congr {path : String} {o o' : NodeHandle} {isPolicyItem : Bool}
    (readable : ∀ x, ¬s.Malformed t r x) (readable' : ∀ x, ¬s'.Malformed t r x)
    (hg : governor (s.view t) path = .ok (o, isPolicyItem))
    (hg' : governor (s'.view t) path = .ok (o', isPolicyItem)) (place : o.path = o'.path)
    (same : s.levelsFor t r ps o.id = s'.levelsFor t r ps o'.id) :
    ∃ d, decideAfresh (s.view t) r ps path = .ok d ∧
      decideAfresh (s'.view t) r ps path = .ok d := by
  have ⟨way, hw, decided⟩ := h.decideAfresh_of_governor ps readable hg
  have ⟨way', hw', decided'⟩ := h'.decideAfresh_of_governor ps readable' hg'
  have ⟨_, ns, hs, hp⟩ := h.handle_eq_some_iff.1 (h.handle_of_governor hg)
  have ⟨_, ms, hs', hp'⟩ := h'.handle_eq_some_iff.1 (h'.handle_of_governor hg')
  obtain rfl := Path.ofNames_injective (h.isSegment_of_stands hs) (h'.isSegment_of_stands hs')
    (hp.symm.trans (place.trans hp'))
  obtain ⟨above, ha, _, stands⟩ := h.lineage_eq hs
  obtain ⟨above', ha', _, stands'⟩ := h'.lineage_eq hs'
  obtain rfl := Option.some_inj.1 (hw.symm.trans ha)
  obtain rfl := Option.some_inj.1 (hw'.symm.trans ha')
  simp only [levelsFor, hw, hw', Option.map_some, Option.some_inj] at same
  have along : (way.map (·.1)).map (s.storedFor t r ps) =
      (way'.map (·.1)).map (s'.storedFor t r ps) := by
    rw [List.map_map, List.map_map]
    exact same
  have alike := entriesOn_alike h h' hs hs' stands stands' readable readable' along
  have evaluated : evaluate _ ⟨path, o.id, isPolicyItem⟩ = _ := evaluate_alike alike ⟨path, o.id, _⟩
  exact ⟨_, decided, evaluated ▸ decided'⟩

end Store

variable {s s' : Store} {t : NodeTypes} {r : Registry} {ps : PrincipalSet} {b b' : Bench}
  {path : String} {o o' : NodeHandle} {isPolicyItem : Bool}

-- On a path that is governed from the same place in two trees, new evaluators for some principals
-- decide the same if the same is stored for these principals there and above.
theorem others_do_not_interfere (h : s.WellFormed) (h' : s'.WellFormed)
    (readable : ∀ x, ¬s.Malformed t r x) (readable' : ∀ x, ¬s'.Malformed t r x)
    (hb : b.Built s t r ps) (hb' : b'.Built s' t r ps)
    (hg : governor (s.view t) path = .ok (o, isPolicyItem))
    (hg' : governor (s'.view t) path = .ok (o', isPolicyItem)) (place : o.path = o'.path)
    (same : s.levelsFor t r ps o.id = s'.levelsFor t r ps o'.id) :
    ∃ d, ((EvaluatorM.decision (s.view t) r path).run.run b).1 = .ok d ∧
      ((EvaluatorM.decision (s'.view t) r path).run.run b').1 = .ok d := by
  rw [hb.decision h, hb'.decision h']
  exact Store.decideAfresh_congr h h' readable readable' hg hg' place same

-- A page with an entry for alice, and one on the root.
def quietTree : Store := (Store.initial ⟨0⟩ "rep:root").afterAll [
  ⟨.addNode ⟨⟨0⟩, "/"⟩ "page" "nt:unstructured", ⟨1⟩⟩,
  ⟨.addMixin ⟨⟨1⟩, "/page"⟩ "rep:AccessControllable", ⟨2⟩⟩,
  ⟨.addNode ⟨⟨1⟩, "/page"⟩ "rep:policy" "rep:ACL", ⟨2⟩⟩,
  ⟨.addNode ⟨⟨2⟩, "/page/rep:policy"⟩ "allow" "rep:GrantACE", ⟨3⟩⟩,
  ⟨.setProperty ⟨⟨3⟩, "/page/rep:policy/allow"⟩ "rep:principalName" (.string "alice"), ⟨4⟩⟩,
  ⟨.setProperty ⟨⟨3⟩, "/page/rep:policy/allow"⟩ "rep:privileges" (.names ["jcr:read"]), ⟨4⟩⟩,
  ⟨.addMixin ⟨⟨0⟩, "/"⟩ "rep:AccessControllable", ⟨4⟩⟩,
  ⟨.addNode ⟨⟨0⟩, "/"⟩ "rep:policy" "rep:ACL", ⟨4⟩⟩,
  ⟨.addNode ⟨⟨4⟩, "/rep:policy"⟩ "deny" "rep:DenyACE", ⟨5⟩⟩,
  ⟨.setProperty ⟨⟨5⟩, "/rep:policy/deny"⟩ "rep:principalName" (.string "alice"), ⟨6⟩⟩,
  ⟨.setProperty ⟨⟨5⟩, "/rep:policy/deny"⟩ "rep:privileges" (.names ["jcr:write"]), ⟨6⟩⟩]

-- The same for alice, among entries for bob. Hers on the page is stored twice.
def busyTree : Store := (Store.initial ⟨0⟩ "rep:root").afterAll [
  ⟨.addMixin ⟨⟨0⟩, "/"⟩ "rep:AccessControllable", ⟨1⟩⟩,
  ⟨.addNode ⟨⟨0⟩, "/"⟩ "rep:policy" "rep:ACL", ⟨1⟩⟩,
  ⟨.addNode ⟨⟨1⟩, "/rep:policy"⟩ "deny" "rep:DenyACE", ⟨2⟩⟩,
  ⟨.setProperty ⟨⟨2⟩, "/rep:policy/deny"⟩ "rep:principalName" (.string "alice"), ⟨3⟩⟩,
  ⟨.setProperty ⟨⟨2⟩, "/rep:policy/deny"⟩ "rep:privileges" (.names ["jcr:write"]), ⟨3⟩⟩,
  ⟨.addNode ⟨⟨0⟩, "/"⟩ "page" "nt:unstructured", ⟨3⟩⟩,
  ⟨.setProperty ⟨⟨3⟩, "/page"⟩ "title" (.string "busy"), ⟨4⟩⟩,
  ⟨.addMixin ⟨⟨3⟩, "/page"⟩ "rep:AccessControllable", ⟨4⟩⟩,
  ⟨.addNode ⟨⟨3⟩, "/page"⟩ "rep:policy" "rep:ACL", ⟨4⟩⟩,
  ⟨.addNode ⟨⟨4⟩, "/page/rep:policy"⟩ "deny" "rep:DenyACE", ⟨5⟩⟩,
  ⟨.setProperty ⟨⟨5⟩, "/page/rep:policy/deny"⟩ "rep:principalName" (.string "bob"), ⟨6⟩⟩,
  ⟨.setProperty ⟨⟨5⟩, "/page/rep:policy/deny"⟩ "rep:privileges" (.names ["jcr:all"]), ⟨6⟩⟩,
  ⟨.addNode ⟨⟨4⟩, "/page/rep:policy"⟩ "allow" "rep:GrantACE", ⟨6⟩⟩,
  ⟨.setProperty ⟨⟨6⟩, "/page/rep:policy/allow"⟩ "rep:principalName" (.string "alice"), ⟨7⟩⟩,
  ⟨.setProperty ⟨⟨6⟩, "/page/rep:policy/allow"⟩ "rep:privileges" (.names ["jcr:read"]), ⟨7⟩⟩,
  ⟨.addNode ⟨⟨4⟩, "/page/rep:policy"⟩ "allow2" "rep:GrantACE", ⟨7⟩⟩,
  ⟨.setProperty ⟨⟨7⟩, "/page/rep:policy/allow2"⟩ "rep:principalName" (.string "alice"), ⟨8⟩⟩,
  ⟨.setProperty ⟨⟨7⟩, "/page/rep:policy/allow2"⟩ "rep:privileges" (.names ["jcr:read"]), ⟨8⟩⟩]

theorem bob_does_not_interfere_with_alice :
    let alice := PrincipalSet.ofList [.named "alice"]
    let b : Bench := ⟨.detached alice 0 8 8, .new 8 ⟨0⟩⟩
    let decision (s : Store) :=
      ((EvaluatorM.decision (s.view .initial) .initial "/page/title").run.run b).1
    quietTree.WellFormed ∧ busyTree.WellFormed ∧
    (∀ x, ¬quietTree.Malformed .initial .initial x) ∧
    (∀ x, ¬busyTree.Malformed .initial .initial x) ∧
    b.Built quietTree .initial .initial alice ∧ b.Built busyTree .initial .initial alice ∧
    governor (quietTree.view .initial) "/page/title" = .ok (⟨⟨1⟩, "/page"⟩, false) ∧
    governor (busyTree.view .initial) "/page/title" = .ok (⟨⟨3⟩, "/page"⟩, false) ∧
    quietTree.levelsFor .initial .initial alice ⟨1⟩ =
      busyTree.levelsFor .initial .initial alice ⟨3⟩ ∧
    (busyTree.storedAt .initial .initial ⟨3⟩).length = 3 ∧
    ∃ d, decision quietTree = .ok d ∧ decision busyTree = .ok d ∧
      PrivilegeBits.read ⊆ d.allowPrivileges ∧ PrivilegeBits.write ⊆ d.denyPrivileges := by
  intro alice b decision
  have wf : quietTree.WellFormed := (Store.reachable_afterAll (by decide +kernel)).wellFormed
  have wf' : busyTree.WellFormed := (Store.reachable_afterAll (by decide +kernel)).wellFormed
  have readable : ∀ x, ¬quietTree.Malformed .initial .initial x :=
    wf.readable_of_loads (by decide +kernel)
  have readable' : ∀ x, ¬busyTree.Malformed .initial .initial x :=
    wf'.readable_of_loads (by decide +kernel)
  have built {s : Store} : b.Built s .initial .initial alice := .of_fresh .detached
  have governed : governor (quietTree.view .initial) "/page/title" =
      .ok (⟨⟨1⟩, "/page"⟩, false) := by decide +kernel
  have governed' : governor (busyTree.view .initial) "/page/title" =
      .ok (⟨⟨3⟩, "/page"⟩, false) := by decide +kernel
  have same : quietTree.levelsFor .initial .initial alice ⟨1⟩ =
      busyTree.levelsFor .initial .initial alice ⟨3⟩ := by decide +kernel
  have stored : (busyTree.storedAt .initial .initial ⟨3⟩).length = 3 := by decide +kernel
  have ⟨d, decided, decided'⟩ := others_do_not_interfere wf wf' readable readable' built built
    governed governed' rfl same
  have told : (fun d => decide (PrivilegeBits.read ⊆ d.allowPrivileges ∧
      PrivilegeBits.write ⊆ d.denyPrivileges)) <$> decision quietTree = .ok true := by
    decide +kernel
  obtain ⟨_, found, told⟩ := map_eq_ok_iff.1 told
  obtain rfl := Except.ok.inj (decided.symm.trans found)
  have ⟨allowed, denied⟩ := of_decide_eq_true told
  exact ⟨wf, wf', readable, readable', built, built, governed, governed', same, stored, d, decided,
    decided', allowed, denied⟩

end PolicyTree
