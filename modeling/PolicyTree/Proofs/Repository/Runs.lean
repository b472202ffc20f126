import Mathlib.Logic.Relation
import Mathlib.Tactic.Common
import PolicyTree.Proofs.Repository.Saving

namespace PolicyTree.Repository

variable {α ε : Type} {s s' : Repository} {n : Nat}

-- One step of a repository whose sessions write whatever they like, while anything may happen
-- elsewhere.
inductive Moves (s : Repository) : Repository → Prop
  | login (faults : Faults) : Moves s ((login faults).run s).2
  | work {α ε : Type} (n : Nat) {work : SessionM ε α} (h : work.Composed) :
    Moves s ((inSession n work).run.run s).2
  | refresh (n : Nat) (keepChanges : Bool) : Moves s ((refresh n keepChanges).run.run s).2
  | save (n : Nat) : Moves s ((save n).run.run s).2
  | elsewhere {s' : Repository} (saved : s'.saved = s.saved) (sessions : s'.sessions = s.sessions)
    (faults : s'.faults = s.faults) (nextId : s.nextId.value ≤ s'.nextId.value) : Moves s s'

def Reached : Repository → Prop := Relation.ReflTransGen Moves (.initial .initial)

theorem moves_openCollector {capacity : Nat} : Moves s ((openCollector capacity).run.run s).2 := by
  rw [run_openCollector]
  split <;> exact .elsewhere rfl rfl rfl (Nat.le_refl _)

structure Sound (s : Repository) : Prop where
  tree   : s.saved.Sound s.nextId
  faults : s.faults = .empty
  copy   : ∀ {n : Nat} {session : Session} {c : WorkingCopy}, s.sessions.get? n = some session →
    session.working = some c → c.Sound s.saved s.nextId

namespace Sound

theorem initial : Sound (.initial .initial) where
  tree := by
    refine ⟨Store.wellFormed_initial, fun id hid => ?_, rfl⟩
    rcases Std.ExtTreeMap.mem_insert.1 hid with hid | hid
    · obtain rfl := Std.LawfulEqCmp.compare_eq_iff_eq.1 hid
      decide
    · simp at hid
  faults := rfl
  copy hn := by simp [Repository.initial, Table.empty, Table.get?] at hn

theorem session (h : s.Sound) {c : WorkingCopy} (hc : (s.session n).working = some c) :
    c.Sound s.saved s.nextId := by
  unfold Repository.session at hc
  cases hn : s.sessions.get? n
  case none => simp [hn, Session.new] at hc
  case some session => exact h.copy hn (by simpa [hn] using hc)

theorem view_eq (h : s.Sound) : s.view = s.saved.store.view .initial := by
  show (s.saved.store.view s.saved.types).withFaults s.faults = _
  rw [h.faults, TreeView.withFaults_empty, h.tree.types]

theorem desk (h : s.Sound) : Desk.Sound s.saved ⟨s.session n, s.nextId⟩ :=
  ⟨h.tree, fun _ hc => h.session hc⟩

theorem set_session {session : Session} {nextId : NodeId} (h : s.Sound)
    (hd : Desk.Sound s.saved ⟨session, nextId⟩) (hle : s.nextId.value ≤ nextId.value) :
    Sound { s with sessions := s.sessions.set n session, nextId } where
  tree := hd.tree
  faults := h.faults
  copy {m} _ _ hm hc := by
    rw [Table.get?_set] at hm
    split at hm
    case isFalse => exact (h.copy hm hc).mono hle
    case isTrue =>
      obtain ⟨_, _, rfl⟩ := Option.map_eq_some_iff.1 hm
      exact hd.copy _ hc

theorem work {work : SessionM ε α} (h : s.Sound) (hw : work.Composed) :
    Sound ((inSession n work).run.run s).2 := by
  have turns : Desk.Turns s.saved ⟨s.session n, s.nextId⟩ _ := hw.turns
  rw [run_inSession]
  exact h.set_session (h.desk.turns turns) turns.nextId_le

theorem of_calm (h : s.Sound) (hc : Calm s s') : s'.Sound where
  tree := by
    rw [hc.saved, hc.nextId]
    exact h.tree
  faults := hc.faults.trans h.faults
  copy hn hw := by
    rw [hc.saved, hc.nextId]
    exact h.copy (hc.sessions ▸ hn) hw

-- Whoever has not saved yet cannot any more.
theorem committed {events : List Event} {saved : Saved} (h : s.Sound)
    (hc : (s.session n).commit s.saved = .ok (events, saved)) : (s.committed n saved).Sound := by
  rcases Session.commit_cases hc with ⟨hw, _, rfl⟩ | ⟨c, hw, hb, _, rfl⟩
  case inl =>
    have hd : Desk.Sound s.saved ⟨{ s.session n with working := none }, s.nextId⟩ :=
      ⟨h.tree, fun c hc => by simp at hc⟩
    exact h.set_session hd (Nat.le_refl _)
  case inr =>
    have hc := h.session hw
    refine ⟨⟨hc.wellFormed hb, hc.below hb, h.tree.types⟩, h.faults,
      fun {m session c'} hm hw' => ?_⟩
    have old : c'.base ≤ s.saved.revision := by
      simp only [Repository.committed, Table.get?_set] at hm
      split at hm
      case isTrue =>
        obtain ⟨_, _, rfl⟩ := Option.map_eq_some_iff.1 hm
        simp at hw'
      case isFalse => exact (h.copy hm hw').base_le
    have late : c'.base ≠ s.saved.revision + 1 := by omega
    exact ⟨Nat.le_succ_of_le old, (absurd · late), (absurd · late), (absurd · late)⟩

theorem save (h : s.Sound) : (s.after (save n)).Sound := by
  rcases after_save_cases (s := s) (n := n) with same | ⟨_, _, hc, told⟩
  case inl =>
    rw [same]
    exact h
  case inr => exact told ▸ (h.committed hc).of_calm (keepsCalm_dispatch _ _)

theorem moves (h : s.Sound) (hm : Moves s s') : s'.Sound := by
  cases hm
  case login faults =>
    refine ⟨h.tree, h.faults, fun {m session c} hm hw => ?_⟩
    simp only [run_login, Table.get?_add] at hm
    split at hm
    case isTrue =>
      obtain rfl := Option.some_inj.1 hm
      simp [Session.new] at hw
    case isFalse => exact h.copy hm hw
  case work n _ hw => exact h.work hw
  case refresh n keep =>
    rw [run_refresh]
    split
    case h_1 => exact h
    case h_2 =>
      refine ⟨h.tree, h.faults, fun {m session c} hm hw => ?_⟩
      simp only [Table.get?_modify] at hm
      split at hm
      case isFalse => exact h.copy hm hw
      case isTrue =>
        obtain ⟨old, hold, rfl⟩ := Option.map_eq_some_iff.1 hm
        refine h.copy hold ?_
        unfold Session.refresh at hw
        split at hw
        · exact hw
        · simp at hw
  case save n => exact h.save
  case elsewhere hs hn hf hle =>
    refine ⟨?_, hf.trans h.faults, fun hm hw => ?_⟩
    · rw [hs]
      exact { h.tree with below := h.tree.below.mono hle }
    · rw [hs]
      exact (h.copy (hn ▸ hm) hw).mono hle

theorem reached (h : Reached s) : s.Sound := by
  induction h
  case refl => exact initial
  case tail _ hm h => exact h.moves hm

end Sound

end PolicyTree.Repository
