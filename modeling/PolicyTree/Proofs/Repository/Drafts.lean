import Mathlib.Logic.Function.Basic
import Mathlib.Tactic.Common
import PolicyTree.Proofs.Repository.Saving
import PolicyTree.Proofs.Tree.Histories

namespace PolicyTree

def Write.run : Write → SessionM TreeError Unit
  | addNode parent name type    => discard <| SessionM.addNode parent name type
  | addMixin node mixin         => SessionM.addMixin node mixin
  | setProperty node name value => SessionM.setProperty node name value
  | removeProperty node name    => discard <| SessionM.removeProperty node name
  | removeNode node             => SessionM.removeNode node

namespace SessionM

variable {α ε : Type} {saved : Saved} {desk : Desk}

-- Work whose answer nobody wants.
theorem Ensures.discard {work : SessionM ε α} {P E : Desk → Prop} {Q : Unit → Desk → Prop}
    (h : Ensures saved P work (fun _ => Q ()) E) : Ensures saved P (discard work) Q E :=
  show Ensures saved P (work >>= fun _ => Pure.pure ()) Q E from h.bind fun _ => .pure fun _ => id

-- How a session stands after a change of its working copy, given what there is to say of the new
-- content. A change that fails leaves the copy that was taken for it, unless the session
-- misbehaves.
theorem Ensures.session_write {session : Session} {call : Call}
    {change : Store → Except TreeError (α × Store)} {Made : Store → Prop}
    (h : ∀ a s, change (copy saved session).store = .ok (a, s) → Made s) :
    Ensures saved (·.session = session) (SessionM.write call change)
      (fun _ d => ∃ s, Made s ∧
        d.session = { session with working := some { copy saved session with store := s } })
      (fun d => d.session = session ∧ session.faults ≠ .empty ∨
        d.session = { session with working := some (copy saved session) }) := by
  rintro d rfl
  rw [run'_write]
  rcases hf : d.session.faults.check call with _ | _
  case error =>
    refine .inl ⟨rfl, fun he => ?_⟩
    simp [he] at hf
  case ok =>
    rcases hc : change (copy saved d.session).store with _ | ⟨a, s⟩
    case error => exact .inr rfl
    case ok    => exact ⟨s, h a s hc, rfl⟩

variable (saved desk) in
theorem Ensures.session_run (w : Write) : Ensures saved (· = desk) w.run
    (fun _ d => ∃ s, w.change desk.nextId (copy saved desk.session).store = .ok s ∧
      d.session = { desk.session with working := some { copy saved desk.session with store := s } })
    (fun d => d.session = desk.session ∧ desk.session.faults ≠ .empty ∨
      d.session = { desk.session with working := some (copy saved desk.session) }) := by
  have begun : ∀ d, d = desk → d.session = desk.session := fun _ hd => hd ▸ rfl
  cases w <;> simp only [Write.run, Write.change]
  case addNode parent name type =>
    refine .discard <| .bind (R := fun id d => id = desk.nextId ∧ d.session = desk.session)
      (.takeId fun d hd => hd ▸ ⟨rfl, rfl⟩) fun id d hd => ?_
    refine session_write (fun a s hs => ?_) d hd.2
    have ⟨hs, _⟩ := Store.new_eq_ok_iff.1 hs
    exact hd.1 ▸ hs
  case addMixin node mixin =>
    refine weaken (session_write fun a s hs => ?_) begun (fun _ _ => id) fun _ => id
    exact unit_eq_ok_iff.1 hs
  case setProperty node name value =>
    refine weaken (session_write fun a s hs => ?_) begun (fun _ _ => id) fun _ => id
    exact unit_eq_ok_iff.1 hs
  case removeProperty node name =>
    refine .discard <| weaken (session_write fun a s hs => ?_) begun (fun _ _ => id) fun _ => id
    exact map_eq_ok_iff.2 ⟨_, hs, rfl⟩
  case removeNode node =>
    refine weaken (session_write fun a s hs => ?_) begun (fun _ _ => id) fun _ => id
    exact unit_eq_ok_iff.1 hs

end SessionM

-- What a session has changed since it took its working copy, in order, and what the copy was taken
-- from.
structure Draft where
  base    : Saved
  changes : List Change

namespace Draft

def replay (d : Draft) (s : Store) : Except TreeError Store :=
  d.changes.foldlM (fun s c => c.write.change c.id s) s

def push (d : Draft) (c : Change) : Draft := { d with changes := d.changes ++ [c] }

theorem replay_push {d : Draft} {c : Change} {s : Store} :
    (d.push c).replay s = d.replay s >>= c.write.change c.id := by
  simp [replay, push, List.foldlM_append]

-- What is saved next is what the draft makes of what is saved, or the same if there is none.
def Applied (draft : Option Draft) (saved saved' : Saved) : Prop :=
  match draft with
  | some d => d.replay saved.store = .ok saved'.store
  | none   => saved' = saved

-- The working copy of a session is what its draft makes of its base, and the base is what is saved
-- as long as the revision is the same.
inductive Tells (saved : Saved) : Option Draft → Option WorkingCopy → Prop
  | nothing : Tells saved none none
  | changes {d : Draft} {c : WorkingCopy} (base : c.base = d.base.revision)
    (content : d.replay d.base.store = .ok c.store) (types : d.base.types = saved.types)
    (old : d.base.revision ≤ saved.revision) (same : d.base.revision = saved.revision →
      d.base = saved) : Tells saved (some d) (some c)

namespace Tells

variable {saved saved' : Saved} {draft : Option Draft} {working : Option WorkingCopy}
  {session : Session} {c : Change} {s : Store}

theorem copied (h : Tells saved draft session.working) :
    Tells saved (some (draft.getD ⟨saved, []⟩)) (some (SessionM.copy saved session)) := by
  unfold SessionM.copy
  generalize session.working = working at h
  cases h
  case nothing => exact .changes rfl rfl rfl (Nat.le_refl _) fun _ => rfl
  case changes base content types old same => exact .changes base content types old same

-- There is a draft if and only if there is a working copy.
theorem begun (h : Tells saved draft working) :
    Tells saved (if working.isSome then some (draft.getD ⟨saved, []⟩) else none) working := by
  cases h
  case nothing => exact .nothing
  case changes base content types old same => exact .changes base content types old same

theorem pushed {d : Draft} {copy : WorkingCopy} (h : Tells saved (some d) (some copy))
    (hs : c.write.change c.id copy.store = .ok s) :
    Tells saved (some (d.push c)) (some { copy with store := s }) := by
  cases h with
  | changes base content types old same =>
    refine .changes base ?_ types old same
    rw [replay_push]
    exact bind_eq_ok_iff.2 ⟨_, content, hs⟩

-- Nobody's base is a state that is yet to be saved.
theorem saved_again (h : Tells saved draft working) (hr : saved'.revision = saved.revision + 1)
    (ht : saved'.types = saved.types) : Tells saved' draft working := by
  cases h
  case nothing => exact .nothing
  case changes base content types old same =>
    exact .changes base content (types.trans ht.symm) (by omega) fun h => by omega

-- What a session with the draft saves, unless somebody has saved since its copy was taken.
theorem commit (h : Tells saved draft session.working) :
    match session.commit saved with
    | .ok (_, saved') => Applied draft saved saved'
    | .error e => e.kind = .invalidItemState ∧
      ∃ d, draft = some d ∧ d.base.revision < saved.revision := by
  unfold Session.commit
  generalize session.working = working at h
  cases h with
  | nothing => rfl
  | @changes d c base content types old same =>
    dsimp only
    by_cases hr : saved.revision = c.base
    case pos =>
      rw [if_neg (not_not.2 hr)]
      exact same (hr.trans base).symm ▸ content
    case neg =>
      rw [if_pos hr]
      exact ⟨rfl, d, rfl, by omega⟩

end Tells

end Draft

namespace Repository

inductive Request where
  | write (w : Write)
  | save
  | refresh (keepChanges : Bool)

def Request.run (n : Nat) : Request → RepositoryM TreeError Unit
  | write w             => inSession n w.run
  | save                => Repository.save n
  | refresh keepChanges => Repository.refresh n keepChanges

-- The draft of a session after a request, given the one before.
def draftAfter (s : Repository) (n : Nat) (r : Request) (draft : Option Draft) : Option Draft :=
  let begun := draft.getD ⟨s.saved, []⟩
  let (result, s') := (r.run n).run.run s
  match r, result with
  | .write w, .ok ()       => some (begun.push ⟨w, s.nextId⟩)
  -- A write that fails may have taken the copy all the same.
  | .write _, .error _     => if (s'.session n).isPending then some begun else none
  | .save, .ok ()          => none
  | .refresh false, .ok () => none
  | _, _                   => draft

-- Runs of a repository in which any sessions make their requests in any order, with the drafts of
-- the sessions, while anything may happen elsewhere.
inductive Drafted (types : NodeTypes) : Repository → (Nat → Option Draft) → Prop
  | start : Drafted types (.initial types) fun _ => none
  | login {s : Repository} {drafts : Nat → Option Draft} (faults : Faults)
    (h : Drafted types s drafts) :
    Drafted types ((login faults).run s).2 (Function.update drafts s.sessions.next none)
  | request {s : Repository} {drafts : Nat → Option Draft} {n : Nat} (r : Request)
    (here : s.sessions.contains n) (h : Drafted types s drafts) :
    Drafted types (s.after (r.run n)) (Function.update drafts n (s.draftAfter n r (drafts n)))
  | elsewhere {s s' : Repository} {drafts : Nat → Option Draft} (saved : s'.saved = s.saved)
    (sessions : s'.sessions = s.sessions) (h : Drafted types s drafts) : Drafted types s' drafts

variable {types : NodeTypes} {s s' : Repository} {drafts : Nat → Option Draft} {n : Nat}

-- Every draft tells of the working copy of its session.
def Keeps (s : Repository) (drafts : Nat → Option Draft) : Prop :=
  ∀ n session, s.sessions.get? n = some session → Draft.Tells s.saved (drafts n) session.working

namespace Keeps

-- A request changes one session, whatever it does to it.
theorem update {f : Session → Session} {draft : Option Draft} (h : s.Keeps drafts)
    (saved : s'.saved = s.saved) (sessions : s'.sessions = s.sessions.modify n f)
    (hd : Draft.Tells s.saved draft (f (s.session n)).working) :
    s'.Keeps (Function.update drafts n draft) := by
  intro m session hm
  rw [sessions, Table.get?_modify] at hm
  rw [saved]
  split at hm
  case isTrue hmn =>
    obtain ⟨former, hf, rfl⟩ := Option.map_eq_some_iff.1 hm
    rw [hmn, Function.update_self]
    simpa [Repository.session, ← hmn, hf] using hd
  case isFalse hmn =>
    rw [Function.update_of_ne hmn]
    exact h m session hm

theorem session (h : s.Keeps drafts) (here : s.sessions.contains n) :
    Draft.Tells s.saved (drafts n) (s.session n).working := by
  obtain ⟨session, hn⟩ := Option.isSome_iff_exists.1 (Table.contains_iff.symm.trans here)
  simpa [Repository.session, hn] using h n session hn

theorem write (w : Write) (h : s.Keeps drafts) (here : s.sessions.contains n) :
    (s.after ((Request.write w).run n)).Keeps
      (Function.update drafts n (s.draftAfter n (.write w) (drafts n))) := by
  have told := h.session here
  have session_set {session : Session} {nextId : NodeId} :
      Repository.session { s with sessions := s.sessions.set n session, nextId } n = session := by
    obtain ⟨_, hn⟩ := Option.isSome_iff_exists.1 (Table.contains_iff.symm.trans here)
    simp [Repository.session, Table.get?_set, hn]
  have ran := SessionM.Ensures.session_run s.saved ⟨s.session n, s.nextId⟩ w _ rfl
  unfold draftAfter after
  simp only [Request.run, run_inSession]
  rcases hr : w.run.run' s.saved ⟨s.session n, s.nextId⟩ with ⟨_ | _, desk⟩ <;> rw [hr] at ran
  case ok =>
    obtain ⟨store, hs, hdesk⟩ := ran
    refine h.update (f := fun _ => desk.session) rfl rfl ?_
    rw [hdesk]
    exact told.copied.pushed hs
  case error =>
    simp only [session_set]
    refine h.update (f := fun _ => desk.session) rfl rfl ?_
    rcases ran with ⟨hdesk, _⟩ | hdesk <;> rw [hdesk]
    case inr => exact told.copied
    case inl => exact told.begun

theorem of_calm (h : s.Keeps drafts) (hc : Calm s s') : s'.Keeps drafts := by
  intro m session hm
  rw [hc.saved]
  exact h m session (hc.sessions ▸ hm)

-- A save empties the draft of one session, and the others have come too late.
theorem committed {events : List Event} {saved : Saved} (h : s.Keeps drafts)
    (hc : (s.session n).commit s.saved = .ok (events, saved)) :
    (s.committed n saved).Keeps (Function.update drafts n none) := by
  have others : ∀ m session, s.sessions.get? m = some session →
      Draft.Tells saved (drafts m) session.working := by
    intro m session hm
    rcases Session.commit_cases hc with ⟨_, _, rfl⟩ | ⟨_, _, _, _, rfl⟩
    case inl => exact h m session hm
    case inr => exact (h m session hm).saved_again rfl rfl
  exact update (s := { s with saved }) (f := fun _ => { s.session n with working := none })
    others rfl rfl .nothing

theorem save (h : s.Keeps drafts) : (s.after (Request.save.run n)).Keeps
    (Function.update drafts n (s.draftAfter n .save (drafts n))) := by
  unfold draftAfter after
  simp only [Request.run, run_save]
  split
  case h_1 => simpa using h
  case h_2 =>
    split
    case h_1 => simpa using h
    case h_2 hc => exact (h.committed hc).of_calm (keepsCalm_dispatch _ _)

theorem refresh {keepChanges : Bool} (h : s.Keeps drafts) (here : s.sessions.contains n) :
    (s.after ((Request.refresh keepChanges).run n)).Keeps
      (Function.update drafts n (s.draftAfter n (.refresh keepChanges) (drafts n))) := by
  unfold draftAfter after
  simp only [Request.run, run_refresh]
  split
  case h_1 => simpa using h
  case h_2 =>
    refine h.update rfl rfl ?_
    cases keepChanges
    case false => exact .nothing
    case true  => exact h.session here

end Keeps

theorem Drafted.keeps (h : Drafted types s drafts) : s.Keeps drafts := by
  induction h
  case start =>
    intro n session hn
    simp [Repository.initial, Table.empty, Table.get?] at hn
  case login s drafts faults h hi =>
    intro n session hn
    simp only [run_login, Table.get?_add] at hn
    split at hn
    case isTrue hm =>
      obtain rfl := Option.some_inj.1 hn
      rw [hm, Function.update_self]
      exact .nothing
    case isFalse hm =>
      rw [Function.update_of_ne hm]
      exact hi n session hn
  case elsewhere saved sessions h hi =>
    intro n session hn
    rw [saved]
    exact hi n session (sessions ▸ hn)
  case request s drafts n r here h hi =>
    cases r
    case write w => exact hi.write w here
    case save => exact hi.save
    case refresh => exact hi.refresh here

theorem kind_of_check {faults : Faults} {call : Call} {e : TreeError}
    (h : faults.check call = .error e) : e.kind = .invalidItemState := by
  unfold Faults.check at h
  split at h
  case isTrue  => exact Except.error.inj h ▸ rfl
  case isFalse => exact nomatch h

-- In every run, a session reads what its own changes make of the tree that its working copy was
-- taken from. A save that succeeds puts in place what these changes make of the tree saved at that
-- moment. One that fails leaves everything as it is, and if the session does not misbehave,
-- somebody has saved since the copy was taken.
theorem save_makes_own_changes (h : Drafted types s drafts) (here : s.sessions.contains n) :
    (∀ d, drafts n = some d → ∃ store, d.replay d.base.store = .ok store ∧
      s.sessionView n = (store.view d.base.types).withFaults (s.session n).faults) ∧
    match (save n).run.run s with
    | (.ok (), s') => Draft.Applied (drafts n) s.saved s'.saved
    | (.error e, s') => e.kind = .invalidItemState ∧ s' = s ∧
      ((s.session n).faults = .empty → ∃ d, drafts n = some d ∧
        d.base.revision < s.saved.revision) := by
  have told := h.keeps.session here
  refine ⟨fun d hd => ?_, ?_⟩
  · rw [hd] at told
    unfold sessionView Session.view Session.store
    generalize (s.session n).working = working at told
    cases told with
    | changes _ content types => exact ⟨_, content, by rw [types]⟩
  · have commit := told.commit
    rw [run_save]
    rcases hf : (s.session n).faults.check .save with e | _
    case error =>
      refine ⟨kind_of_check hf, rfl, fun he => ?_⟩
      simp [he, Faults.check, Faults.empty, Faults.get?] at hf
    case ok =>
      rcases hc : (s.session n).commit s.saved with e | ⟨events, saved⟩ <;> rw [hc] at commit
      case error => exact ⟨commit.1, rfl, fun _ => commit.2⟩
      case ok =>
        have calm : Calm (s.committed n saved) ((dispatch events).run _).2 := keepsCalm_dispatch _ _
        dsimp only at commit ⊢
        rw [calm.saved]
        exact commit

-- Of two sessions that write side by side the second comes too late, and starts again.
def sideBySide : Repository :=
  initial .initial |>.after (ε := TreeError) (login .empty)
    |>.after (ε := TreeError) (login .empty)
    |>.after (Request.run 0 (.write (.addNode ⟨⟨0⟩, "/"⟩ "a" "nt:unstructured")))
    |>.after (Request.run 1 (.write (.addNode ⟨⟨0⟩, "/"⟩ "b" "nt:unstructured")))
    |>.after (Request.run 0 .save)
    |>.after (Request.run 1 .save)
    |>.after (Request.run 1 (.refresh false))
    |>.after (Request.run 1 (.write (.addNode ⟨⟨1⟩, "/a"⟩ "b" "nt:unstructured")))
    |>.after (Request.run 0 (.write (.removeNode ⟨⟨1⟩, "/a"⟩)))
    |>.after (Request.run 1 (.write (.setProperty ⟨⟨3⟩, "/a/b"⟩ "title" (.string "late"))))

theorem late_writer_starts_again : ∃ drafts, Drafted .initial sideBySide drafts ∧
    sideBySide.sessions.contains 1 ∧ (drafts 1).map (·.changes.map (·.id)) = some [⟨3⟩, ⟨4⟩] ∧
    ((save 1).run.run sideBySide).1.isOk ∧
    Draft.Applied (drafts 1) sideBySide.saved (sideBySide.after (save 1)).saved := by
  obtain ⟨drafts, h, changes⟩ : ∃ drafts, Drafted .initial sideBySide drafts ∧
      (drafts 1).map (·.changes.map (·.id)) = some [⟨3⟩, ⟨4⟩] :=
    ⟨_, .request _ (by decide +kernel) <| .request _ (by decide +kernel) <|
      .request _ (by decide +kernel) <| .request _ (by decide +kernel) <|
      .request _ (by decide +kernel) <| .request _ (by decide +kernel) <|
      .request _ (by decide +kernel) <| .request _ (by decide +kernel) <|
      .login .empty <| .login .empty .start, by decide +kernel⟩
  have here : sideBySide.sessions.contains 1 := by decide +kernel
  have saves : ((save 1).run.run sideBySide).1.isOk := by decide +kernel
  refine ⟨drafts, h, here, changes, saves, ?_⟩
  -- What the state is made of is of no matter from here on.
  generalize sideBySide = s at h here saves ⊢
  have ⟨_, made⟩ := save_makes_own_changes h here
  unfold after
  rcases hr : (save 1).run.run s with ⟨_ | _, _⟩ <;> rw [hr] at made saves
  case error => exact nomatch saves
  case ok    => exact made

end Repository

end PolicyTree
