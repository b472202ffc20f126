import Mathlib.Tactic.Common
import PolicyTree.Proofs.Repository.Runs
import PolicyTree.Proofs.Tree.Succeeding

namespace PolicyTree

namespace Desk

variable {saved saved' : Saved} {desk desk' : Desk} {c : WorkingCopy}

theorem store_of_none (h : desk.session.working = none) : desk.store saved = saved.store := by
  simp [Desk.store, SessionM.copy, h]

theorem store_of_some (h : desk.session.working = some c) : desk.store saved = c.store := by
  simp [Desk.store, SessionM.copy, h]

theorem Orderly.of_store_eq (h : desk.Orderly saved) (store : desk'.store saved' = desk.store saved)
    (next : desk.nextId.value ≤ desk'.nextId.value) : desk'.Orderly saved' where
  wellFormed := store ▸ h.wellFormed
  below      := store ▸ h.below.mono next

end Desk

namespace Repository

variable {α ε : Type} {s s' : Repository} {t : NodeTypes} {n m : Nat}

-- The node types never change, and the saved tree and the tree of every session are orderly.
structure Orderly (t : NodeTypes) (s : Repository) : Prop where
  types   : s.saved.types = t
  saved   : Desk.Orderly s.saved ⟨.new, s.nextId⟩
  session : ∀ {n : Nat} {session : Session}, s.sessions.get? n = some session →
    Desk.Orderly s.saved ⟨session, s.nextId⟩

namespace Orderly

theorem initial : Orderly t (.initial t) where
  types      := rfl
  saved      := ⟨Store.wellFormed_initial, fun id hid => by
    obtain rfl : ⟨0⟩ = id := by
      simpa [Desk.store, SessionM.copy, Session.new, Repository.initial, Store.initial] using hid
    exact Nat.one_pos⟩
  session hn := by simp [Repository.initial, Table.empty, Table.get?] at hn

theorem desk (h : s.Orderly t) (n : Nat) : Desk.Orderly s.saved ⟨s.session n, s.nextId⟩ := by
  unfold Repository.session
  cases hn : s.sessions.get? n
  case none         => exact h.saved
  case some session => exact h.session hn

-- A session without a working copy reads the saved tree.
theorem of_none {session : Session} (h : s.Orderly t) (hw : session.working = none) :
    Desk.Orderly s.saved ⟨session, s.nextId⟩ :=
  h.saved.of_store_eq (Desk.store_of_none hw) (Nat.le_refl _)

theorem set_session {desk : Desk} (h : s.Orderly t) (hd : desk.Orderly s.saved)
    (hle : s.nextId.value ≤ desk.nextId.value) : Orderly t
      { s with sessions := s.sessions.set n desk.session, nextId := desk.nextId } where
  types      := h.types
  saved      := h.saved.of_store_eq rfl hle
  session hn := by
    rw [Table.get?_set] at hn
    split at hn
    case isFalse => exact (h.session hn).of_store_eq rfl hle
    case isTrue =>
      obtain ⟨_, _, rfl⟩ := Option.map_eq_some_iff.1 hn
      exact hd

theorem work {work : SessionM ε α} (h : s.Orderly t) (hw : work.Composed) :
    Orderly t ((inSession n work).run.run s).2 := by
  have turns : Desk.Turns s.saved ⟨s.session n, s.nextId⟩ _ := hw.turns
  rw [run_inSession]
  exact h.set_session ((h.desk n).turns turns) turns.nextId_le

theorem of_calm (h : s.Orderly t) (hc : Calm s s') : s'.Orderly t where
  types      := hc.saved ▸ h.types
  saved      := by
    rw [hc.saved, hc.nextId]
    exact h.saved
  session hn := by
    rw [hc.saved, hc.nextId]
    exact h.session (hc.sessions ▸ hn)

theorem committed {events : List Event} {saved : Saved} (h : s.Orderly t)
    (hc : (s.session n).commit s.saved = .ok (events, saved)) :
    (s.committed n saved).Orderly t := by
  -- Whoever saves leaves its tree as the saved one.
  have ⟨types, tree⟩ :
      saved.types = t ∧ saved.store = Desk.store s.saved ⟨s.session n, s.nextId⟩ := by
    rcases Session.commit_cases hc with ⟨hw, _, rfl⟩ | ⟨c, hw, _, _, rfl⟩
    case inl => exact ⟨h.types, (Desk.store_of_none hw).symm⟩
    case inr => exact ⟨h.types, (Desk.store_of_some hw).symm⟩
  have new {session : Session} (hw : session.working = none) :
      Desk.Orderly saved ⟨session, s.nextId⟩ :=
    (h.desk n).of_store_eq ((Desk.store_of_none hw).trans tree) (Nat.le_refl _)
  refine ⟨types, new rfl, fun {m session} hm => ?_⟩
  simp only [Repository.committed, Table.get?_set] at hm
  split at hm
  case isTrue =>
    obtain ⟨_, _, rfl⟩ := Option.map_eq_some_iff.1 hm
    exact new rfl
  case isFalse =>
    cases hw : session.working
    case none   => exact new hw
    case some c =>
      refine (h.session hm).of_store_eq ?_ (Nat.le_refl _)
      exact (Desk.store_of_some hw).trans (Desk.store_of_some hw).symm

theorem moves (h : s.Orderly t) (hm : Moves s s') : s'.Orderly t := by
  cases hm
  case work n _ hw => exact h.work hw
  case login faults =>
    refine ⟨h.types, h.saved, fun {m session} hm => ?_⟩
    simp only [run_login, Table.get?_add] at hm
    split at hm
    case isFalse => exact h.session hm
    case isTrue =>
      obtain rfl := Option.some_inj.1 hm
      exact h.of_none rfl
  case refresh n keepChanges =>
    rw [run_refresh]
    split
    case h_1 => exact h
    case h_2 =>
      refine ⟨h.types, h.saved, fun {m session} hm => ?_⟩
      simp only [Table.get?_modify] at hm
      split at hm
      case isFalse => exact h.session hm
      case isTrue =>
        obtain ⟨session, hn, rfl⟩ := Option.map_eq_some_iff.1 hm
        cases keepChanges
        case true  => exact h.session hn
        case false => exact h.of_none rfl
  case save n =>
    rw [← after]
    rcases after_save_cases (s := s) (n := n) with same | ⟨_, _, hc, told⟩
    case inl =>
      rw [same]
      exact h
    case inr => exact told ▸ (h.committed hc).of_calm (keepsCalm_dispatch _ _)
  case elsewhere saved sessions _ hle =>
    refine ⟨saved ▸ h.types, ?_, fun {m session} hm => ?_⟩
    · rw [saved]
      exact h.saved.of_store_eq rfl hle
    · rw [saved]
      exact (h.session (sessions ▸ hm)).of_store_eq rfl hle

theorem reached (h : Relation.ReflTransGen Moves (.initial t) s) : s.Orderly t := by
  induction h
  case refl        => exact initial
  case tail _ hm h => exact h.moves hm

-- What a session reads, unless it misbehaves.
theorem sessionView_eq (h : s.Orderly t) (faults : (s.session n).faults = .empty) :
    s.sessionView n = (Desk.store s.saved ⟨s.session n, s.nextId⟩).view t := by
  rw [sessionView, Session.view, faults, TreeView.withFaults_empty, h.types, ← Desk.store_eq]

end Orderly

end Repository

end PolicyTree
