import Mathlib.Data.List.Induction
import Mathlib.Data.List.Nodup
import Mathlib.Tactic.Common
import PolicyTree.Proofs.Success
import PolicyTree.Repository.Observing

namespace PolicyTree

variable {ℓ : Type}

-- Hands out the batches of a dispatch one after the other, as they stand at its start.
def Dispatcher.handOut {σ : Type} (d : Dispatcher ℓ) (events : List Event)
    (deliver : ℓ × List Event → StateM σ Unit) : StateM σ Unit :=
  (d.deliveries events).forM deliver

-- So does a repository, whose dispatcher may change with every batch.
theorem Repository.dispatch_eq_handOut (events : List Event) : Repository.dispatch events =
    (get >>= fun s => s.dispatcher.handOut events Repository.deliver) := rfl

-- Nobody gets an empty batch.
theorem Dispatcher.deliveries_eq_map {d : Dispatcher ℓ} {events : List Event} :
    d.deliveries events = (d.subscriptions.filter fun sub => events.any sub.filter.accepts).map
      fun sub => (sub.listener, events.filter sub.filter.accepts) := by
  rw [deliveries]
  induction d.subscriptions
  case nil => rfl
  case cons sub subs hi =>
    have there : events.any sub.filter.accepts = !(events.filter sub.filter.accepts).isEmpty := by
      rw [Bool.eq_iff_iff]
      simp
    rw [List.filterMap_cons, List.filter_cons, there, hi]
    cases hb : events.filter sub.filter.accepts <;> simp [hb]

namespace Chronicle

inductive Request (ℓ : Type)
  | subscribe (filter : EventFilter) (listener : ℓ)
  | unsubscribe (id : SubscriptionId)

-- What happens at a dispatcher, with the answers that are given.
inductive Occurrence (ℓ : Type)
  | subscribed (filter : EventFilter) (listener : ℓ) (answer : Except TreeError SubscriptionId)
  | unsubscribed (id : SubscriptionId) (answer : Except TreeError Unit)
  | dispatched (events : List Event)
  | delivered (listener : ℓ) (batch : List Event)

-- What listeners ask for when they get a batch, in the light of all that has happened.
abbrev Reaction (ℓ : Type) := List (Occurrence ℓ) → ℓ → List Event → List (Request ℓ)

inductive Call (ℓ : Type)
  | request (r : Request ℓ)
  | dispatch (events : List Event)

section

-- What can be told from the past.

variable (past : List (Occurrence ℓ))

def made : List (Subscription ℓ) :=
  past.filterMap fun
    | .subscribed filter listener (.ok id) => some ⟨id, filter, listener⟩
    | _ => none

def cancelled : List SubscriptionId :=
  past.filterMap fun
    | .unsubscribed id (.ok _) => some id
    | _ => none

def active : List (Subscription ℓ) := (made past).filter (·.id ∉ cancelled past)

def batches : List (ℓ × List Event) :=
  past.filterMap fun
    | .delivered listener batch => some (listener, batch)
    | _ => none

-- The answer that a request has to get. Subscriptions are numbered as they are made, and each that
-- was made can be cancelled until it is.
def Occurrence.Answered : Occurrence ℓ → Prop
  | subscribed filter _ answer => answer = match Path.validate filter.root with
    | .ok _    => .ok ⟨(made past).length⟩
    | .error e => .error (.invalidPath e)
  | unsubscribed id answer => answer =
    if id ∈ (made past).map (·.id) ∧ id ∉ cancelled past then .ok ()
    else .error (.unknownSubscription id)
  | dispatched _ => True
  | delivered .. => True

end

end Chronicle

structure Chronicle (ℓ : Type) where
  dispatcher : Dispatcher ℓ
  past       : List (Chronicle.Occurrence ℓ)

namespace Chronicle

def new : Chronicle ℓ := ⟨.empty, []⟩

def log (c : Chronicle ℓ) (o : Occurrence ℓ) : Chronicle ℓ := { c with past := c.past ++ [o] }

def ask (c : Chronicle ℓ) : Request ℓ → Chronicle ℓ
  | .subscribe filter listener =>
    match c.dispatcher.subscribe filter listener with
    | .ok (id, dispatcher) => { c.log (.subscribed filter listener (.ok id)) with dispatcher }
    | .error e => c.log (.subscribed filter listener (.error e))
  | .unsubscribe id =>
    match c.dispatcher.unsubscribe id with
    | .ok dispatcher => { c.log (.unsubscribed id (.ok ())) with dispatcher }
    | .error e => c.log (.unsubscribed id (.error e))

variable (react : Reaction ℓ)

def hear (delivery : ℓ × List Event) : StateM (Chronicle ℓ) Unit := do
  modify (·.log (.delivered delivery.1 delivery.2))
  modify fun c => (react c.past delivery.1 delivery.2).foldl ask c

def dispatch (events : List Event) : StateM (Chronicle ℓ) Unit := do
  modify (·.log (.dispatched events))
  (← get).dispatcher.handOut events (hear react)

def call (c : Chronicle ℓ) : Call ℓ → Chronicle ℓ
  | .request r       => c.ask r
  | .dispatch events => ((dispatch react events).run c).2

-- All that there is in a dispatcher can be told from its past, and all answers were right.
structure Told (c : Chronicle ℓ) : Prop where
  subscriptions : c.dispatcher.subscriptions = active c.past
  nextId        : c.dispatcher.nextId = (made c.past).length
  numbered      : (made c.past).map (·.id) = (List.range (made c.past).length).map .mk
  known         : ∀ id ∈ cancelled c.past, id ∈ (made c.past).map (·.id)
  nodup         : (cancelled c.past).Nodup
  answered      : ∀ earlier o later, c.past = earlier ++ o :: later → o.Answered earlier

variable {c c' c'' : Chronicle ℓ} {o : Occurrence ℓ} {past : List (Occurrence ℓ)}
  {id : SubscriptionId} {ds ds' : List (ℓ × List Event)}

theorem mem_active_iff : id ∈ (active past).map (·.id) ↔
    id ∈ (made past).map (·.id) ∧ id ∉ cancelled past := by
  simp only [active, List.mem_map, List.mem_filter, decide_eq_true_eq]
  constructor
  case mp  => exact fun ⟨x, ⟨hx, hc⟩, hid⟩ => ⟨⟨x, hx, hid⟩, hid ▸ hc⟩
  case mpr => exact fun ⟨⟨x, hx, hid⟩, hc⟩ => ⟨x, ⟨hx, hid ▸ hc⟩, hid⟩

namespace Told

theorem new : (Chronicle.new (ℓ := ℓ)).Told where
  subscriptions := rfl
  nextId        := rfl
  numbered      := rfl
  known         := nofun
  nodup         := .nil
  answered      := by simp [Chronicle.new]

variable (h : c.Told)

include h

theorem answered_log (ho : o.Answered c.past) :
    ∀ earlier o' later, (c.log o).past = earlier ++ o' :: later → o'.Answered earlier := by
  intro earlier o' later hp
  rcases List.eq_nil_or_concat later with rfl | ⟨later, last, rfl⟩
  · obtain ⟨rfl, hl⟩ := List.append_inj' hp rfl
    exact List.singleton_inj.1 hl ▸ ho
  · have split : c.past ++ [o] = (earlier ++ o' :: later) ++ [last] := by simpa [log] using hp
    exact h.answered earlier o' later (List.append_inj' split rfl).1

-- What makes and cancels nothing leaves everything as it is.
theorem log (ho : o.Answered c.past) (hm : made (c.past ++ [o]) = made c.past)
    (hc : cancelled (c.past ++ [o]) = cancelled c.past) : (c.log o).Told where
  subscriptions := by rw [Chronicle.log, active, hm, hc]; exact h.subscriptions
  nextId        := by rw [Chronicle.log, hm]; exact h.nextId
  numbered      := by rw [Chronicle.log, hm]; exact h.numbered
  known         := by rw [Chronicle.log, hm, hc]; exact h.known
  nodup         := by rw [Chronicle.log, hc]; exact h.nodup
  answered      := h.answered_log ho

theorem nodup_made : ((made c.past).map (·.id)).Nodup := by
  rw [h.numbered]
  exact List.nodup_range.map fun a b => SubscriptionId.mk.inj

theorem new_id : ⟨(made c.past).length⟩ ∉ (made c.past).map (·.id) := by
  rw [h.numbered]
  simp

-- Numbers are given once, and so a new subscription was not cancelled before.
theorem subscribe (filter : EventFilter) (listener : ℓ) :
    (c.ask (.subscribe filter listener)).Told := by
  rw [ask, Dispatcher.subscribe]
  cases hv : Path.validate filter.root
  case error e =>
    exact h.log (by simp [Occurrence.Answered, hv]) (by simp [made]) (by simp [cancelled])
  case ok =>
    set id : SubscriptionId := ⟨c.dispatcher.nextId⟩ with hid
    set o : Occurrence ℓ := .subscribed filter listener (.ok id)
    have hm : made (c.past ++ [o]) = made c.past ++ [⟨id, filter, listener⟩] := by simp [o, made]
    have hc : cancelled (c.past ++ [o]) = cancelled c.past := by simp [o, cancelled]
    have number : id = ⟨(made c.past).length⟩ := by rw [hid, h.nextId]
    have new : id ∉ cancelled c.past := fun hid => h.new_id (number ▸ h.known id hid)
    have told : o.Answered c.past := by simp [o, Occurrence.Answered, hv, number]
    refine ⟨?_, ?_, ?_, ?_, ?_, h.answered_log told⟩
    · show c.dispatcher.subscriptions ++ [⟨id, filter, listener⟩] = active (c.past ++ [o])
      rw [active, hm, hc, List.filter_append, ← active, h.subscriptions]
      simp [new]
    · show c.dispatcher.nextId + 1 = (made (c.past ++ [o])).length
      rw [hm, List.length_append, h.nextId]
      rfl
    · show (made (c.past ++ [o])).map (·.id) = (List.range (made (c.past ++ [o])).length).map .mk
      rw [hm, List.length_append, List.length_singleton, List.range_succ, List.map_append,
        List.map_append, h.numbered, number]
      rfl
    · show ∀ id ∈ cancelled (c.past ++ [o]), id ∈ (made (c.past ++ [o])).map (·.id)
      rw [hm, hc, List.map_append]
      exact fun x hx => List.mem_append_left _ (h.known x hx)
    · exact hc ▸ h.nodup

-- Only what there is can be cancelled, and so nothing is twice.
theorem unsubscribe (id : SubscriptionId) : (c.ask (.unsubscribe id)).Told := by
  rw [ask, Dispatcher.unsubscribe]
  have found : c.dispatcher.subscriptions.any (·.id = id) ↔
      id ∈ (made c.past).map (·.id) ∧ id ∉ cancelled c.past := by
    rw [h.subscriptions, ← mem_active_iff]
    simp
  by_cases there : id ∈ (made c.past).map (·.id) ∧ id ∉ cancelled c.past
  case neg =>
    rw [if_neg (found.not.2 there)]
    exact h.log (if_neg there).symm (by simp [made]) (by simp [cancelled])
  case pos =>
    rw [if_pos (found.2 there)]
    set o : Occurrence ℓ := .unsubscribed id (.ok ())
    have hm : made (c.past ++ [o]) = made c.past := by simp [o, made]
    have hc : cancelled (c.past ++ [o]) = cancelled c.past ++ [id] := by simp [o, cancelled]
    refine ⟨?_, ?_, ?_, ?_, ?_, h.answered_log (if_pos there).symm⟩
    · show c.dispatcher.subscriptions.filter (·.id ≠ id) = active (c.past ++ [o])
      rw [active, hm, hc, h.subscriptions, active, List.filter_filter]
      exact List.filter_congr fun x _ => by simp [and_comm]
    · exact hm ▸ h.nextId
    · exact hm ▸ h.numbered
    · show ∀ id ∈ cancelled (c.past ++ [o]), id ∈ (made (c.past ++ [o])).map (·.id)
      rw [hm, hc, List.forall_mem_append]
      exact ⟨h.known, fun x hx => List.mem_singleton.1 hx ▸ there.1⟩
    · show (cancelled (c.past ++ [o])).Nodup
      rw [hc, ← List.concat_eq_append, List.nodup_concat]
      exact ⟨there.2, h.nodup⟩

theorem ask (r : Request ℓ) : (c.ask r).Told := by
  cases r
  case subscribe filter listener => exact h.subscribe filter listener
  case unsubscribe id            => exact h.unsubscribe id

-- There are as many subscriptions as were made and not cancelled.
theorem count_add : c.dispatcher.count + (cancelled c.past).length = (made c.past).length := by
  have parts : ((active c.past).map (·.id) ++ cancelled c.past).Nodup := by
    refine List.nodup_append.2 ⟨h.nodup_made.sublist (List.filter_sublist.map _), h.nodup, ?_⟩
    rintro id ha _ hc rfl
    obtain ⟨x, hx, rfl⟩ := List.mem_map.1 ha
    exact of_decide_eq_true (List.mem_filter.1 hx).2 hc
  have same : ((active c.past).map (·.id) ++ cancelled c.past).Perm ((made c.past).map (·.id)) := by
    refine (List.perm_ext_iff_of_nodup parts h.nodup_made).2 fun id => ?_
    rw [List.mem_append, mem_active_iff]
    by_cases hc : id ∈ cancelled c.past
    case pos => exact iff_of_true (.inr hc) (h.known id hc)
    case neg => simp [hc]
  simpa [Dispatcher.count, h.subscriptions] using same.length_eq

end Told

-- What is done at a dispatcher delivers some batches, and leaves it to be told from its past.
structure Delivers (c c' : Chronicle ℓ) (ds : List (ℓ × List Event)) : Prop where
  told : c.Told → c'.Told
  past : ∃ onward, c'.past = c.past ++ onward ∧ batches onward = ds

namespace Delivers

theorem refl : c.Delivers c [] := ⟨id, [], (List.append_nil _).symm, rfl⟩

theorem trans (h : c.Delivers c' ds) (h' : c'.Delivers c'' ds') : c.Delivers c'' (ds ++ ds') := by
  obtain ⟨onward, hp, hb⟩ := h.past
  obtain ⟨onward', hp', hb'⟩ := h'.past
  refine ⟨h'.told ∘ h.told, onward ++ onward', by rw [hp', hp, List.append_assoc], ?_⟩
  rw [← hb, ← hb']
  exact List.filterMap_append

theorem ask (r : Request ℓ) : c.Delivers (c.ask r) [] := by
  refine ⟨fun h => h.ask r, ?_⟩
  unfold Chronicle.ask
  split <;> split <;> exact ⟨_, rfl, rfl⟩

theorem asks (rs : List (Request ℓ)) : c.Delivers (rs.foldl Chronicle.ask c) [] := by
  induction rs generalizing c
  case nil          => exact .refl
  case cons r rs hi => exact (ask r).trans hi

variable {react : Reaction ℓ}

theorem hear (d : ℓ × List Event) : c.Delivers ((hear react d).run c).2 [d] :=
  have heard : c.Delivers (c.log (.delivered d.1 d.2)) [d] :=
    ⟨fun h => h.log trivial (by simp [made]) (by simp [cancelled]), _, rfl, rfl⟩
  heard.trans (asks _)

-- What is to be handed out is not changed by what listeners ask for.
theorem forM_hear : c.Delivers ((ds.forM (Chronicle.hear react)).run c).2 ds := by
  induction ds generalizing c
  case nil          => exact .refl
  case cons d ds hi => exact (hear d).trans hi

theorem dispatch (events : List Event) :
    (c.log (.dispatched events)).Delivers ((dispatch react events).run c).2
      (c.dispatcher.deliveries events) :=
  forM_hear

end Delivers

theorem Told.call {react : Reaction ℓ} (h : c.Told) (x : Call ℓ) : (c.call react x).Told := by
  cases x
  case request r       => exact h.ask r
  case dispatch events =>
    exact (Delivers.dispatch events).told (h.log trivial (by simp [made]) (by simp [cancelled]))

theorem told_calls {react : Reaction ℓ} (calls : List (Call ℓ)) :
    (calls.foldl (call react) .new).Told := by
  induction calls using List.reverseRecOn
  case nil => exact .new
  case append_singleton calls x hi =>
    rw [List.foldl_concat]
    exact hi.call x

-- Whatever is asked of a dispatcher, and whatever listeners ask when they get a batch: a dispatch
-- gives those who are subscribed at its start, in the order of their subscriptions, what they
-- accept of its events, if there is any; new subscriptions have new numbers, each is cancelled at
-- most once, and there are as many as were made and not cancelled.
theorem dispatch_delivers_once (react : Reaction ℓ) (calls : List (Call ℓ)) :
    let c := calls.foldl (call react) .new
    (∀ events, ∃ onward,
      (c.call react (.dispatch events)).past = c.past ++ .dispatched events :: onward ∧
      batches onward = ((active c.past).filter fun sub => events.any sub.filter.accepts).map
        fun sub => (sub.listener, events.filter sub.filter.accepts)) ∧
    (∀ earlier o later, c.past = earlier ++ o :: later → o.Answered earlier) ∧
    ((made c.past).map (·.id)).Nodup ∧ (cancelled c.past).Nodup ∧
    c.dispatcher.count + (cancelled c.past).length = (made c.past).length := by
  intro c
  have told : c.Told := told_calls calls
  refine ⟨fun events => ?_, told.answered, told.nodup_made, told.nodup, told.count_add⟩
  have delivers : (c.log (.dispatched events)).Delivers (c.call react (.dispatch events))
      (c.dispatcher.deliveries events) := .dispatch events
  obtain ⟨onward, past, handed⟩ := delivers.past
  refine ⟨onward, past.trans (List.append_assoc ..), ?_⟩
  rw [handed, Dispatcher.deliveries_eq_map, told.subscriptions]

-- Who is cancelled while a dispatch goes on still gets what it had been given, and nothing after.
example :
    let page : Event := ⟨.nodeAdded, "/page", ⟨1⟩, []⟩
    let all : EventFilter := ⟨EventKind.all, "/", true, []⟩
    let react : Reaction String := fun _ listener _ =>
      if listener = "first" then [.unsubscribe ⟨1⟩] else []
    let c := [.request (.subscribe all "first"), .request (.subscribe all "second"),
      .dispatch [page], .dispatch [page]].foldl (call react) .new
    batches c.past = [("first", [page]), ("second", [page]), ("first", [page])] ∧
      cancelled c.past = [⟨1⟩] ∧ c.dispatcher.count = 1 := by
  decide +kernel

end Chronicle

end PolicyTree
