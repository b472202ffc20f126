import Mathlib.Tactic.Common
import PolicyTree.Proofs.Policy.Curating
import PolicyTree.Proofs.Policy.RoundTrip
import PolicyTree.Proofs.Repository.Sessions

namespace PolicyTree

-- A path goes on leading to a node that is kept.
theorem Store.Follows.eq_of_resolve {s s' : Store} {t : NodeTypes} {o o' : NodeHandle} {n : Node}
    (f : s.Follows s') (wf : s.WellFormed) (wf' : s'.WellFormed) (ho : s.handle? o.id = some o)
    (kept : s'.nodes[o.id]? = some n) (hr : (s'.view t).resolve o.path = .ok (some o')) :
    o' = o := by
  have ⟨_, ns, stands, path⟩ := wf.handle_eq_some_iff.1 ho
  have ⟨path', ms, stands', hms⟩ := wf'.of_resolve hr
  have stays := f.stands wf' stands kept
  obtain rfl : ns = ms := Path.ofNames_injective (wf.isSegment_of_stands stands)
    (wf'.isSegment_of_stands stands') (path.symm.trans hms)
  have id : o'.id = o.id := wf'.stands_inj stands' stays
  show (⟨o'.id, o'.path⟩ : NodeHandle) = o
  rw [id, path']

namespace SessionM

variable {saved : Saved} {desk : Desk} {p : Policy} {path : String}

-- Without an owner, storing a policy ends before anything is written.
theorem run'_store_of_no_owner (faults : desk.session.faults = .empty)
    (hn : (desk.store saved).nodes[p.owner.id]? = none) :
    ∃ e, p.store.run' saved desk = (.error e, desk) := by
  have view : desk.session.view saved = (desk.store saved).view saved.types := by
    rw [Session.view, faults, TreeView.withFaults_empty, Desk.store_eq]
  have unknown : ∃ e, (desk.session.view saved).isType p.owner Policy.mixin = .error e := by
    rw [view]
    exact ⟨_, by simp [Store.view, Store.get, hn, bind, Except.bind]; rfl⟩
  obtain ⟨e, he⟩ := unknown
  refine ⟨e, ?_⟩
  unfold Policy.store
  rw [run'_bind, run'_ask, he]

-- A policy is set as a whole or not at all, if every restriction of it may be a property.
theorem Ensures.setPolicy_or_unchanged (orderly : desk.Orderly saved)
    (faults : desk.session.faults = .empty) (storable : ∀ e ∈ p.entries, e.Storable) :
    Ensures saved (· = desk) (Editor.setPolicy path p) (fun _ _ => True) (· = desk) := by
  have stores : Ensures saved (· = desk) p.store (fun _ _ => True) (· = desk) := by
    cases hn : (desk.store saved).nodes[p.owner.id]?
    case none =>
      rintro _ rfl
      have ⟨e, he⟩ := run'_store_of_no_owner faults hn
      rw [he]
    case some n =>
      refine Ensures.weaken lists_store ?_ (fun _ _ _ => trivial) fun _ h => absurd storable h
      rintro _ rfl
      exact ⟨orderly, faults, n, hn⟩
  refine .bind (R := fun _ d => d = desk) (.ask (fun _ hd _ _ => hd) fun _ => id) fun node => ?_
  split
  · exact .bind (R := fun _ d => d = desk) (.throw fun _ => id) fun _ => .lift stores
  · exact .lift stores

end SessionM

namespace Repository

variable {α ε : Type} {s : Repository} {t : NodeTypes} {n : Nat} {p q : Policy} {path : String}

-- What work in a session leaves.

theorem saved_after {work : SessionM ε α} : (s.after (inSession n work)).saved = s.saved := by
  rw [after, run_inSession]

theorem registry_after {work : SessionM ε α} :
    (s.after (inSession n work)).registry = s.registry := by
  rw [after, run_inSession]

theorem session_after {work : SessionM ε α} (here : s.sessions.contains n) :
    (s.after (inSession n work)).session n =
      (work.run' s.saved ⟨s.session n, s.nextId⟩).2.session := by
  obtain ⟨session, hs⟩ := Option.isSome_iff_exists.1 (Table.contains_iff.symm.trans here)
  rw [after, run_inSession]
  simp [Repository.session, Table.get?_set, hs]

theorem session_after_of_eq {work : SessionM ε α}
    (h : (work.run' s.saved ⟨s.session n, s.nextId⟩).2 = ⟨s.session n, s.nextId⟩) :
    (s.after (inSession n work)).sessionView n = s.sessionView n := by
  have : (s.after (inSession n work)).session n = s.session n := by
    rw [after, run_inSession, h]
    unfold Repository.session
    cases hs : s.sessions.get? n <;> simp [Table.get?_set, hs]
  rw [sessionView, this, sessionView, after, run_inSession]

theorem Orderly.sessionView_after {work : SessionM ε α} (h : s.Orderly t) (hw : work.Composed)
    (here : s.sessions.contains n) {result : Except ε α} {desk : Desk}
    (hr : work.run' s.saved ⟨s.session n, s.nextId⟩ = (result, desk))
    (faults : desk.session.faults = .empty) :
    (s.after (inSession n work)).sessionView n = (desk.store s.saved).view t := by
  have session : (s.after (inSession n work)).session n = desk.session := by
    rw [session_after here, hr]
  have after : (s.after (inSession n work)).Orderly t := h.work hw
  rw [after.sessionView_eq (session ▸ faults), session, saved_after]
  rfl

-- The desk of a session, ready to store a policy whose owner is there.
theorem Orderly.has_owner {o : NodeHandle} (h : s.Orderly t)
    (faults : (s.session n).faults = .empty)
    (owner : (s.sessionView n).nodeById p.owner.id = .ok (some o)) :
    Desk.Has s.saved (fun s => ∃ n, s.nodes[p.owner.id]? = some n) ⟨s.session n, s.nextId⟩ := by
  rw [h.sessionView_eq faults, Store.view_nodeById] at owner
  have ⟨_, ns, stands, _⟩ := (h.desk n).wellFormed.handle_eq_some_iff.1 (Except.ok.inj owner)
  exact ⟨h.desk n, faults, (h.desk n).wellFormed.mem_of_stands stands⟩

-- A policy that was stored is read again as the same one, whatever policy there was before.
theorem store_then_load {o : NodeHandle} (reached : Relation.ReflTransGen Moves (.initial t) s)
    (types : t.TellsEntries) (here : s.sessions.contains n)
    (faults : (s.session n).faults = .empty)
    (owner : (s.sessionView n).nodeById p.owner.id = .ok (some o)) (distinct : p.Distinct)
    (made : ∀ e ∈ p.entries, e.MadeFrom s.registry)
    (named : ∀ e ∈ p.entries, ∀ name ∈ e.restrictions,
      Path.validateName name = .ok () ∧ Policy.isRestriction name) :
    ((inSession n p.store).run.run s).1 = .ok () ∧
    let s' := s.after (inSession n p.store)
    ∃ q, Policy.load (s'.sessionView n) s'.registry p.owner = .ok (some q) ∧ q.same p := by
  have orderly := Orderly.reached reached
  have storable (e : Entry) (he : e ∈ p.entries) : e.Storable := fun name hname =>
    ⟨(named e he name hname).1, by
      rintro rfl
      exact absurd (named e he _ hname).2 (by decide)⟩
  have stored := SessionM.Ensures.lists_store _ (orderly.has_owner faults owner)
  rcases hr : p.store.run' s.saved ⟨s.session n, s.nextId⟩ with ⟨_ | _, desk⟩ <;> rw [hr] at stored
  case error => exact absurd storable stored
  case ok =>
    obtain ⟨policy, ids, lists⟩ := stored.tree
    rw [orderly.types] at lists
    refine ⟨by rw [run_inSession, hr], ?_⟩
    intro s'
    rw [orderly.sessionView_after SessionM.composed_store here hr stored.faults, registry_after]
    exact lists.load_same stored.orderly.wellFormed types distinct made fun e he name hname =>
      (named e he name hname).2

-- A node with a policy, and a policy to take its place.
def pages : NodeHandle := ⟨⟨1⟩, "/pages"⟩

def readingEntry (principal : String) (restrictions : Restrictions) : Entry :=
  ⟨principal, [Privilege.concrete Privilege.readName .read], true, restrictions, pages⟩

def formerPolicy : Policy := ⟨pages, [readingEntry "bob" ∅]⟩

def newerPolicy : Policy := ⟨pages, [
  { readingEntry "bob" ∅ with isAllow := false, privileges := [Privilege.write] },
  readingEntry "alice" (.ofList [(Glob.restrictionName, Value.string "/public/*")])]⟩

def withPolicy (types : NodeTypes) : Repository :=
  initial types |>.after (ε := TreeError) (login .empty)
    |>.after (inSession 0 (SessionM.addNode ⟨⟨0⟩, "/"⟩ "pages" "nt:unstructured"))
    |>.after (inSession 0 formerPolicy.store)

theorem reached_withPolicy : Relation.ReflTransGen Moves (.initial t) (withPolicy t) :=
  .tail (.tail (.tail .refl (.login .empty)) (.work 0 (.addNode ..)))
    (.work 0 SessionM.composed_store)

theorem registry_withPolicy : (withPolicy t).registry = .initial := by
  rw [withPolicy, registry_after, registry_after]
  rfl

-- Entries that allow are passed over where their type is declared without what it inherits.
def bareTypes : NodeTypes := NodeTypes.initial.declare Policy.allowType []

theorem session_withPolicy :
    (withPolicy .initial).sessions.contains 0 ∧ ((withPolicy .initial).session 0).faults = .empty ∧
    ((withPolicy .initial).sessionView 0).nodeById pages.id = .ok (some pages) := by
  decide +kernel

def givenPrivileges : List Privilege :=
  [.concrete Privilege.readName .read, .write]

theorem get_givenPrivileges : ∀ p ∈ givenPrivileges, Registry.initial.get p.name = .ok p := by
  decide +kernel

-- Entries that are made again of what they have were made.
theorem madeFrom_initial {l : List Entry} (h : ∀ e ∈ l, e.privileges ⊆ givenPrivileges ∧
      Entry.make e.principal e.privileges e.isAllow e.restrictions e.owner = .ok e) :
    ∀ e ∈ l, e.MadeFrom (withPolicy t).registry :=
  registry_withPolicy (t := t) ▸ fun e he =>
    ⟨e.privileges, fun _ hp => get_givenPrivileges _ ((h e he).1 hp), (h e he).2⟩

theorem named_newerPolicy : ∀ e ∈ newerPolicy.entries, ∀ name ∈ e.restrictions,
    Path.validateName name = .ok () ∧ Policy.isRestriction name := by
  have : ∀ e ∈ newerPolicy.entries, ∀ name ∈ e.restrictions.keys,
      Path.validateName name = .ok () ∧ Policy.isRestriction name := by decide +kernel
  exact fun e he name hname => this e he name (Std.ExtTreeMap.mem_keys.2 hname)

theorem newer_policy_is_read :
    let s := withPolicy .initial
    (∀ e ∈ newerPolicy.entries, e.MadeFrom s.registry) ∧
    ((inSession 0 newerPolicy.store).run.run s).1 = .ok () ∧
    let s' := s.after (inSession 0 newerPolicy.store)
    ∃ q, Policy.load (s'.sessionView 0) s'.registry pages = .ok (some q) ∧ q.same newerPolicy := by
  have made := madeFrom_initial (t := .initial) (l := newerPolicy.entries) (by decide +kernel)
  have ⟨here, faults, owner⟩ := session_withPolicy
  have ⟨types, distinct⟩ : NodeTypes.initial.TellsEntries ∧ newerPolicy.Distinct := by
    decide +kernel
  exact ⟨made, store_then_load (o := pages) reached_withPolicy types here faults owner
    distinct made named_newerPolicy⟩

theorem bare_entries_are_not_read :
    let s := withPolicy bareTypes
    let s' := s.after (inSession 0 newerPolicy.store)
    Relation.ReflTransGen Moves (.initial bareTypes) s ∧ s.sessions.contains 0 ∧
    (s.session 0).faults = .empty ∧ (s.sessionView 0).nodeById pages.id = .ok (some pages) ∧
    newerPolicy.Distinct ∧ (∀ e ∈ newerPolicy.entries, e.MadeFrom s.registry) ∧
    (∀ e ∈ newerPolicy.entries, ∀ name ∈ e.restrictions,
      Path.validateName name = .ok () ∧ Policy.isRestriction name) ∧
    ((inSession 0 newerPolicy.store).run.run s).1 = .ok () ∧
    ¬∃ q, Policy.load (s'.sessionView 0) s'.registry pages = .ok (some q) ∧
      q.same newerPolicy := by
  intro s s'
  have ⟨here, faults, owner, distinct, stored, q', _, read, other⟩ :
      s.sessions.contains 0 ∧ (s.session 0).faults = .empty ∧
      (s.sessionView 0).nodeById pages.id = .ok (some pages) ∧ newerPolicy.Distinct ∧
      ((inSession 0 newerPolicy.store).run.run s).1 = .ok () ∧
      ∃ q ∈ [⟨pages, newerPolicy.entries.take 1⟩],
        (Policy.load (s'.sessionView 0) s'.registry pages).toOption = some (some q) ∧
        ¬q.same newerPolicy := by decide +kernel
  refine ⟨reached_withPolicy, here, faults, owner, distinct, madeFrom_initial (by decide +kernel),
    named_newerPolicy, stored, ?_⟩
  rintro ⟨q, hq, same⟩
  obtain rfl : q = q' :=
    Option.some_inj.1 (Except.ok.inj (hq.symm.trans (toOption_eq_some_iff.1 read)))
  exact other same

-- A policy that may be stored is set as a whole, or the session reads what it read before.
theorem failed_setPolicy_changes_nothing {e : AccessError}
    (reached : Relation.ReflTransGen Moves (.initial t) s) (faults : (s.session n).faults = .empty)
    (storable : ∀ e ∈ p.entries, e.Storable)
    (failed : ((inSession n (Editor.setPolicy path p)).run.run s).1 = .error e) :
    (s.after (inSession n (Editor.setPolicy path p))).sessionView n = s.sessionView n := by
  have orderly := Orderly.reached reached
  have ensures : SessionM.Ensures s.saved _ (Editor.setPolicy path p) _ _ :=
    .setPolicy_or_unchanged (orderly.desk n) faults storable
  have h := ensures _ rfl
  rw [run_inSession] at failed
  rcases hr : (Editor.setPolicy path p).run' s.saved ⟨s.session n, s.nextId⟩ with ⟨_ | _, desk⟩ <;>
    rw [hr] at h failed
  case error => exact session_after_of_eq (hr ▸ h)
  case ok    => exact nomatch failed

-- The node was removed and added again, so that nobody has the policy's owner any more.
def renewed : Repository :=
  withPolicy .initial |>.after (inSession 0 (SessionM.removeNode pages))
    |>.after (inSession 0 (SessionM.addNode ⟨⟨0⟩, "/"⟩ "pages" "nt:unstructured"))

theorem policy_of_former_node_is_refused :
    let setting := inSession 0 (Editor.setPolicy "/pages" newerPolicy)
    (∃ e, (setting.run.run renewed).1 = .error e) ∧
    (renewed.after setting).sessionView 0 = renewed.sessionView 0 := by
  intro setting
  have ⟨refused, faults⟩ : (setting.run.run renewed).1.isOk = false ∧
      (renewed.session 0).faults = .empty := by decide +kernel
  rcases failed : (setting.run.run renewed).1 with e | _
  case ok => simp [failed, Except.isOk, Except.toBool] at refused
  case error =>
    refine ⟨⟨e, rfl⟩, failed_setPolicy_changes_nothing
      (.tail (.tail reached_withPolicy (.work 0 (.removeNode _))) (.work 0 (.addNode ..)))
      faults (fun e he name hname => ?_) failed⟩
    have ⟨valid, named⟩ := named_newerPolicy e he name hname
    refine ⟨valid, ?_⟩
    rintro rfl
    exact absurd named (by decide)

-- A restriction that may not be a property stops the policy from being stored half way.
def brokenPolicy : Policy :=
  ⟨pages, [readingEntry "alice" (.ofList [("a/b", Value.boolean true)])]⟩

theorem failed_setPolicy_may_drop_former_policy :
    let s := withPolicy .initial
    let setting := inSession 0 (Editor.setPolicy "/pages" brokenPolicy)
    let s' := s.after setting
    Relation.ReflTransGen Moves (.initial .initial) s ∧ (s.session 0).faults = .empty ∧
    (∀ e ∈ brokenPolicy.entries, e.MadeFrom s.registry) ∧ (setting.run.run s).1.isOk = false ∧
    (Policy.load (s.sessionView 0) s.registry pages).toOption = some (some formerPolicy) ∧
    (Policy.load (s'.sessionView 0) s'.registry pages).toOption =
      some (some ⟨pages, [readingEntry "alice" ∅]⟩) ∧
    s'.sessionView 0 ≠ s.sessionView 0 := by
  intro s setting s'
  have ⟨refused, before, after, other⟩ : (setting.run.run s).1.isOk = false ∧
      (Policy.load (s.sessionView 0) s.registry pages).toOption = some (some formerPolicy) ∧
      (Policy.load (s'.sessionView 0) s'.registry pages).toOption =
        some (some ⟨pages, [readingEntry "alice" ∅]⟩) ∧
      formerPolicy ≠ ⟨pages, [readingEntry "alice" ∅]⟩ := by decide +kernel
  have ⟨_, faults, _⟩ := session_withPolicy
  refine ⟨reached_withPolicy, faults, madeFrom_initial (by decide +kernel), refused, before, after,
    fun same => ?_⟩
  have registry : s'.registry = s.registry := registry_after
  rw [same, registry, before] at after
  exact other (by simpa using after)

-- What it takes for a policy to be set, and to be read.

theorem exists_of_setPolicy {saved : Saved} {desk desk' : Desk}
    (h : (Editor.setPolicy path p).run' saved desk = (.ok (), desk')) :
    (∃ node, (desk.session.view saved).resolve path = .ok (some node) ∧
      p.owner.path = node.path) ∧ p.store.run' saved desk = (.ok (), desk') := by
  rw [Editor.setPolicy, SessionM.run'_bind, SessionM.run'_ask] at h
  cases ht : Editor.target (desk.session.view saved) path
  case error => simp [ht] at h
  case ok node =>
    simp only [ht] at h
    split at h
    case isTrue => exact nomatch h
    case isFalse hp =>
      have lifted : (liftM p.store : SessionM AccessError Unit).run' saved desk =
        ((p.store.run' saved desk).1.mapError .tree, (p.store.run' saved desk).2) := rfl
      rw [lifted] at h
      obtain ⟨hok, rfl⟩ := Prod.mk.inj h
      refine ⟨⟨node, (Editor.target_eq_ok_iff.1 ht).1, not_not.1 hp⟩, ?_⟩
      rw [← mapError_eq_ok_iff.1 hok]

theorem exists_of_getPolicy {saved : Saved} {desk : Desk} {r : Registry}
    (h : ((Editor.getPolicy r path).run' saved desk).1 = .ok (some q)) :
    ∃ node, (desk.session.view saved).resolve path = .ok (some node) ∧
      Policy.load (desk.session.view saved) r node = .ok (some q) := by
  rw [Editor.getPolicy, SessionM.run'_ask] at h
  obtain ⟨node, ht, h⟩ := bind_eq_ok_iff.1 h
  exact ⟨node, (Editor.target_eq_ok_iff.1 ht).1, h⟩

-- An entry whose restrictions leave its principal and its privileges alone is read again as one for
-- the same principal, with the same privileges, that allows or denies them as it did.
theorem set_entry_keeps_principal {e : Entry}
    (reached : Relation.ReflTransGen Moves (.initial t) s) (types : t.TellsEntries)
    (here : s.sessions.contains n) (faults : (s.session n).faults = .empty)
    (owner : (s.sessionView n).nodeById p.owner.id = .ok (some p.owner))
    (stored : ((inSession n (Editor.setPolicy path p)).run.run s).1 = .ok ())
    (read : ((inSession n (Editor.getPolicy s.registry path)).run.run
      (s.after (inSession n (Editor.setPolicy path p)))).1 = .ok (some q))
    (he : e ∈ p.entries) (apart : e.Apart) (made : e.MadeFrom s.registry) :
    ∃ e' ∈ q.entries, e'.principal = e.principal ∧ e'.bits = e.bits ∧ e'.isAllow = e.isAllow := by
  have orderly := Orderly.reached reached
  have wf := (orderly.desk n).wellFormed
  rcases hr : (Editor.setPolicy path p).run' s.saved ⟨s.session n, s.nextId⟩ with ⟨_ | _, desk⟩ <;>
    rw [run_inSession, hr] at stored
  case error => exact nomatch stored
  case ok =>
    have ⟨⟨node, resolved, samePath⟩, hstore⟩ := exists_of_setPolicy hr
    have stored := SessionM.Ensures.lists_store _ (orderly.has_owner faults owner)
    rw [hstore] at stored
    obtain ⟨policy, ids, lists⟩ := stored.tree
    rw [orderly.types] at lists
    rw [run_inSession] at read
    obtain ⟨node', resolved', loaded⟩ := exists_of_getPolicy read
    have view := orderly.sessionView_after SessionM.composed_setPolicy here hr stored.faults
    change ((s.after _).sessionView n).resolve path = _ at resolved'
    change Policy.load ((s.after _).sessionView n) _ node' = _ at loaded
    rw [view] at resolved' loaded
    change (s.sessionView n).resolve path = _ at resolved
    rw [orderly.sessionView_eq faults] at resolved owner
    -- Storing the policy leaves its owner where it is, so that the path leads to it again.
    obtain rfl : node' = p.owner := by
      have composed : SessionM.Composed (Editor.setPolicy path p) := SessionM.composed_setPolicy
      have turns : Desk.Turns s.saved ⟨s.session n, s.nextId⟩ _ := composed.turns
      rw [hr] at turns
      have ⟨_, kept⟩ := lists.owner_mem
      refine ((orderly.desk n).follows turns).eq_of_resolve wf stored.orderly.wellFormed
        (Except.ok.inj owner) kept (t := t) ?_
      rw [samePath, (wf.of_resolve resolved).1, resolved']
    have ⟨e', listed, content⟩ :=
      lists.mem_of_load stored.orderly.wellFormed types loaded he apart made
    obtain ⟨principal, bits, isAllow, _⟩ : e'.principal = e.principal ∧ e'.bits = e.bits ∧
        e'.isAllow = e.isAllow ∧ _ := by simpa [Entry.content] using content
    exact ⟨e', listed, principal, bits, isAllow⟩

-- An entry with a restriction that is not read again.
def notedPolicy : Policy :=
  ⟨pages, [readingEntry "alice" (.ofList [("jcr:note", Value.string "for review")])]⟩

theorem noted_entry_keeps_principal :
    let s := withPolicy .initial
    let s' := s.after (inSession 0 (Editor.setPolicy "/pages" notedPolicy))
    ∃ q, ((inSession 0 (Editor.getPolicy s.registry "/pages")).run.run s').1 = .ok (some q) ∧
    ∀ e ∈ notedPolicy.entries, ∃ e' ∈ q.entries,
      e'.principal = e.principal ∧ e'.bits = e.bits ∧ e'.isAllow = e.isAllow := by
  intro s s'
  have ⟨types, stored, apart, q, _, found⟩ : NodeTypes.initial.TellsEntries ∧
      ((inSession 0 (Editor.setPolicy "/pages" notedPolicy)).run.run s).1 = .ok () ∧
      (∀ e ∈ notedPolicy.entries, Policy.principalProperty ∉ e.restrictions ∧
        Policy.privilegesProperty ∉ e.restrictions) ∧
      ∃ q ∈ [⟨pages, [readingEntry "alice" ∅]⟩],
        ((inSession 0 (Editor.getPolicy s.registry "/pages")).run.run s').1.toOption =
          some (some q) := by decide +kernel
  have read := toOption_eq_some_iff.1 found
  have ⟨here, faults, owner⟩ := session_withPolicy
  exact ⟨q, read, fun e he => set_entry_keeps_principal reached_withPolicy types here faults owner
    stored read he (apart e he)
    (madeFrom_initial (l := notedPolicy.entries) (by decide +kernel) e he)⟩

-- An entry for one principal becomes an entry for another.
def forgedPolicy : Policy :=
  ⟨pages, [readingEntry "alice" (.ofList [(Policy.principalProperty, Value.string "bob")])]⟩

theorem restriction_may_replace_principal :
    let s := withPolicy .initial
    let s' := s.after (inSession 0 (Editor.setPolicy "/pages" forgedPolicy))
    (∀ e ∈ forgedPolicy.entries, e.MadeFrom s.registry) ∧
    ((inSession 0 (Editor.setPolicy "/pages" forgedPolicy)).run.run s).1.isOk ∧
    ((inSession 0 (Editor.getPolicy s.registry "/pages")).run.run s').1.toOption =
      some (some ⟨pages, [readingEntry "bob" ∅]⟩) :=
  ⟨madeFrom_initial (by decide +kernel), by decide +kernel⟩

end Repository

end PolicyTree
