import Mathlib.Tactic.Common
import PolicyTree.Proofs.Tree.Working
import PolicyTree.Repository.Observing

namespace PolicyTree

-- Looking up in tables.

namespace Table

variable {α : Type} {t : Table α} {n m : Nat} {a : α} {f : α → α}

theorem get?_modify : (t.modify n f).get? m = if m = n then (t.get? m).map f else t.get? m := by
  simp only [get?, modify, Std.ExtTreeMap.getElem?_modify, Std.LawfulEqCmp.compare_eq_iff_eq,
    eq_comm (b := m)]
  split
  case isTrue h  => rw [h]
  case isFalse h => rfl

theorem get?_set : (t.set n a).get? m = if m = n then (t.get? m).map fun _ => a else t.get? m :=
  get?_modify

theorem set_get? (h : t.get? n = some a) : t.set n a = t := by
  have items : (t.set n a).items = t.items := Std.ExtTreeMap.ext_getElem? fun m => by
    show (t.set n a).get? m = t.get? m
    rw [get?_set]
    split
    case isTrue hm => simp [hm, h]
    case isFalse   => rfl
  exact congrArg (Table.mk · t.next) items

theorem contains_iff : t.contains n = (t.get? n).isSome := by
  simp [contains, get?]

theorem contains_set : (t.set n a).contains m = t.contains m := by
  rw [contains_iff, contains_iff, get?_set]
  split <;> simp

theorem get?_add : (t.add a).2.get? m = if m = t.next then some a else t.get? m := by
  simp [get?, add, Std.ExtTreeMap.getElem?_insert, eq_comm (b := m)]

theorem get?_of_erase (h : (t.erase n).get? m = some a) : t.get? m = some a := by
  simp only [get?, erase, Std.ExtTreeMap.getElem?_erase] at h
  split at h
  case isTrue  => exact nomatch h
  case isFalse => exact h

end Table

-- A session saves nothing, or its copy if that was taken from the tree that is saved.
theorem Session.commit_cases {session : Session} {saved saved' : Saved} {events : List Event}
    (h : session.commit saved = .ok (events, saved')) :
    session.working = none ∧ events = [] ∧ saved' = saved ∨
    ∃ copy, session.working = some copy ∧ copy.base = saved.revision ∧
      events = saved.store.changes copy.store saved.types ∧
      saved' = { saved with store := copy.store, revision := saved.revision + 1 } := by
  unfold commit at h
  split at h
  case h_1 hw =>
    obtain ⟨rfl, rfl⟩ := Prod.mk.inj (Except.ok.inj h)
    exact .inl ⟨hw, rfl, rfl⟩
  case h_2 copy hw =>
    split at h
    case isTrue => exact nomatch h
    case isFalse hb =>
      obtain ⟨rfl, rfl⟩ := Prod.mk.inj (Except.ok.inj h)
      exact .inr ⟨copy, hw, (not_not.1 hb).symm, rfl, rfl⟩

namespace Repository

variable {α ε : Type} {s : Repository} {n : Nat}

-- The state that work leaves, whether it fails or not.
def after (s : Repository) (work : RepositoryM ε α) : Repository := (work.run.run s).2

-- Said of any work that begins by reading the state, so that the work itself need not be opened.
theorem run_get_bind {f : Repository → RepositoryM ε α} :
    (get >>= f).run.run s = (f s).run.run s := rfl

theorem run_state_get_bind {f : Repository → StateM Repository α} :
    (get >>= f).run s = (f s).run s := rfl

theorem run_state_modify_bind {f : Repository → Repository} {g : PUnit → StateM Repository α} :
    (modify f >>= g).run s = (g ⟨⟩).run (f s) := rfl

-- What the steps of a session do.

theorem run_login {faults : Faults} : (login faults).run s =
    (s.sessions.next, { s with sessions := (s.sessions.add { Session.new with faults }).2 }) := rfl

theorem run_inSession {work : SessionM ε α} :
    (inSession n work).run.run s =
      ((work.run' s.saved ⟨s.session n, s.nextId⟩).1, { s with
        sessions := s.sessions.set n (work.run' s.saved ⟨s.session n, s.nextId⟩).2.session
        nextId := (work.run' s.saved ⟨s.session n, s.nextId⟩).2.nextId }) := by
  show (liftM (work.run' s.saved ⟨s.session n, s.nextId⟩).1 : RepositoryM ε α).run.run _ = _
  cases (work.run' s.saved ⟨s.session n, s.nextId⟩).1 <;> rfl

theorem run_refresh {keep : Bool} : (refresh n keep).run.run s =
    match (s.session n).faults.check .refresh with
    | .error e => (.error e, s)
    | .ok () => (.ok (), { s with sessions := s.sessions.modify n (·.refresh keep) }) := by
  rw [refresh, run_get_bind]
  cases (s.session n).faults.check .refresh <;> rfl

def committed (s : Repository) (n : Nat) (saved : Saved) : Repository :=
  { s with saved, sessions := s.sessions.set n { s.session n with working := none } }

theorem run_save : (save n).run.run s =
    match (s.session n).faults.check .save with
    | .error e => (.error e, s)
    | .ok () => match (s.session n).commit s.saved with
      | .error e => (.error e, s)
      | .ok (events, saved) => (.ok (), ((dispatch events).run (s.committed n saved)).2) := by
  rw [save, run_get_bind]
  dsimp only
  rcases (s.session n).faults.check .save with _ | _
  · rfl
  · rcases (s.session n).commit s.saved with _ | ⟨events, saved⟩ <;> rfl

-- A save that does not go through leaves everything as it was.
theorem after_save_cases : s.after (save n) = s ∨ ∃ events saved,
    (s.session n).commit s.saved = .ok (events, saved) ∧
    s.after (save n) = ((dispatch events).run (s.committed n saved)).2 := by
  rw [after, run_save]
  split
  case h_1 => exact .inl rfl
  case h_2 =>
    split
    case h_1 => exact .inl rfl
    case h_2 events saved hc => exact .inr ⟨events, saved, hc, rfl⟩

theorem run_dispatch_nil : (dispatch []).run s = ((), s) := by
  have none : s.dispatcher.deliveries [] = [] :=
    List.filterMap_eq_nil_iff.2 fun _ _ => rfl
  show ((s.dispatcher.deliveries []).forM deliver).run s = _
  rw [none]
  rfl

-- What the operations on collectors and evaluators do.

theorem run_hear {n : Nat} {events : List Event} : (hear n events).run s =
    if (PolicyChange.ofEvents s.view events).isEmpty then ((), s)
    else match s.collectors.get? n with
      | none => ((), s)
      | some c => ((c.invalidate s.isAlive).listeners.forM fun l =>
          notify (PolicyChange.ofEvents s.view events) l.2).run
            { s with collectors := s.collectors.set n (c.invalidate s.isAlive) } := by
  rw [hear, run_state_get_bind]
  dsimp only
  cases (PolicyChange.ofEvents s.view events).isEmpty
  · cases s.collectors.get? n <;> rfl
  · rfl

def bench (s : Repository) (e : AclEvaluator) : Bench :=
  ⟨e, (s.collectors.get? e.collector).getD .absent⟩

theorem run_query {n : Nat} {everything : α} {readOnly : Except AccessError α}
    {work : EvaluatorM α} : (query n everything readOnly work).run.run s =
      match s.evaluators.get? n with
      | none => (.error (.notInitialized .evaluatorClosed), s)
      | some (.everything isClosed) => ((fun _ => everything) <$> requireOpen isClosed, s)
      | some (.readOnly isClosed) => (requireOpen isClosed >>= fun _ => readOnly, s)
      | some (.acl e) => ((work.run.run (s.bench e)).1, { s with
          collectors := s.collectors.set e.collector (work.run.run (s.bench e)).2.collector
          evaluators := s.evaluators.set n (.acl (work.run.run (s.bench e)).2.evaluator) }) := by
  refine run_get_bind.trans ?_
  dsimp only
  rcases s.evaluators.get? n with _ | ⟨isClosed⟩ | ⟨isClosed⟩ | ⟨e⟩
  · rfl
  · cases isClosed <;> rfl
  · cases isClosed
    · cases readOnly <;> rfl
    · rfl
  · show (liftM (work.run.run (s.bench e)).1 : RepositoryM AccessError α).run.run { s with
        collectors := s.collectors.set e.collector (work.run.run (s.bench e)).2.collector
        evaluators := s.evaluators.set n (.acl (work.run.run (s.bench e)).2.evaluator) } = _
    dsimp only
    rcases (work.run.run (s.bench e)).1 <;> rfl

theorem run_grants {n : Nat} {path : String} {permissions : Permissions} :
    (grants n path permissions).run.run s = (query n true (ReadOnly.grants s.view path permissions)
      (EvaluatorM.grants s.view s.registry path permissions)).run.run s := run_get_bind

theorem run_privileges {path : String} : (privileges n path).run.run s =
    (query n s.registry.allBits (ReadOnly.privileges s.view path)
      (EvaluatorM.privileges s.view s.registry path)).run.run s := run_get_bind

theorem run_canRead {path : String} {item : Option NodeId} : (canRead n path item).run.run s =
    (query n true (ReadOnly.grants s.view path .read)
      (EvaluatorM.canRead s.view s.registry path item)).run.run s := run_get_bind

theorem run_decision {path : String} : (decision n path).run.run s = (query n none (pure none)
    (some <$> EvaluatorM.decision s.view s.registry path)).run.run s := run_get_bind

theorem run_openCollector {capacity : Nat} : (openCollector capacity).run.run s =
    match s.observationFaults.check .subscribe with
    | .error e => (.error e, s)
    | .ok () => (.ok s.collectors.next, { s with
        dispatcher := ⟨s.dispatcher.subscriptions ++
          [⟨⟨s.dispatcher.nextId⟩, PolicyChange.filter, .collector s.collectors.next⟩],
          s.dispatcher.nextId + 1⟩
        collectors := (s.collectors.add (.new capacity ⟨s.dispatcher.nextId⟩)).2 }) := by
  rw [openCollector, run_get_bind]
  cases s.observationFaults.check .subscribe <;> rfl

theorem run_unsubscribe {id : SubscriptionId} : (unsubscribe id).run.run s =
    match s.dispatcher.unsubscribe id with
    | .error e => (.error e, s)
    | .ok dispatcher => (.ok (), { s with dispatcher }) := by
  rw [unsubscribe, run_get_bind]
  cases s.dispatcher.unsubscribe id <;> rfl

theorem run_observe {name : String} {filter : EventFilter} {cancels : Option String} :
    (observe name filter cancels).run.run s =
      match s.dispatcher.subscribe filter (.recorder s.recorders.table.next) with
      | .error e => (.error e, s)
      | .ok (id, dispatcher) => (.ok (), { s with
          dispatcher
          recorders := { s.recorders with
            table := (s.recorders.table.add ⟨[], cancels, false⟩).2 }.bind name
              s.recorders.table.next id }) := by
  rw [observe, run_get_bind]
  show ((liftM (s.dispatcher.subscribe filter (.recorder s.recorders.table.next)) >>= _ :
    RepositoryM TreeError Unit)).run.run s = _
  rcases s.dispatcher.subscribe filter (.recorder s.recorders.table.next) with _ | ⟨_, _⟩ <;> rfl

theorem run_closeCollector : (closeCollector n).run.run s =
    match (s.collectors.get? n).bind (·.subscription) with
    | none => (.ok (), s)
    | some id =>
      let closed := { s with collectors := s.collectors.modify n ({ · with subscription := none }) }
      match s.observationFaults.check .unsubscribe with
      | .error e => (.error e, closed)
      | .ok () => (unsubscribe id).run.run closed := by
  rw [closeCollector, run_get_bind]
  dsimp only
  rcases (s.collectors.get? n).bind (·.subscription) with _ | id
  · rfl
  · cases s.observationFaults.check .unsubscribe <;> rfl

theorem run_collectedEntries {principals : PrincipalSet} {node : NodeHandle} :
    (collectedEntries n principals node).run.run s =
      let out := (Collector.entries s.view s.registry principals node).run.run
        ((s.collectors.get? n).getD .absent)
      (out.1, { s with collectors := s.collectors.set n out.2 }) := by
  show (liftM ((Collector.entries s.view s.registry principals node).run.run
    ((s.collectors.get? n).getD .absent)).1 : RepositoryM AccessError (List Entry)).run.run _ = _
  dsimp only
  cases ((Collector.entries s.view s.registry principals node).run.run
    ((s.collectors.get? n).getD .absent)).1 <;> rfl

def unregistered (s : Repository) (e : AclEvaluator) : Repository :=
  match e.listener with
  | none => s
  | some id =>
    let collector := (((s.collectors.get? e.collector).getD .absent).removeListener id).2
    { s with collectors := s.collectors.set e.collector collector }

theorem run_closeEvaluator : (closeEvaluator n).run s =
    match s.evaluators.get? n with
    | none => ((), s)
    | some (.everything _) => ((), { s with evaluators := s.evaluators.set n (.everything true) })
    | some (.readOnly _) => ((), { s with evaluators := s.evaluators.set n (.readOnly true) })
    | some (.acl e) =>
      if e.isClosed then ((), s)
      else ((), { s.unregistered e with
        evaluators := (s.unregistered e).evaluators.set n (.acl e.close) }) := by
  rw [closeEvaluator, run_state_get_bind]
  rcases s.evaluators.get? n with _ | ⟨_ | _ | ⟨_, _, listener, _, _, _ | _⟩⟩
  case some.acl.false => cases listener <;> rfl
  all_goals rfl

end Repository

end PolicyTree
