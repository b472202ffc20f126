import Mathlib.Logic.Relation
import Mathlib.Tactic.Common
import PolicyTree.Proofs.Policy.Curating
import PolicyTree.Proofs.Policy.Exactness
import PolicyTree.Proofs.Repository.Coherence
import PolicyTree.Proofs.Repository.Sessions

namespace PolicyTree

def Truths.none : Truths := ⟨fun _ _ => True, fun _ _ _ _ => True, fun _ _ _ => True⟩

theorem Truths.none_sustained {tree : TreeView} {r : Registry} : Truths.none.Sustained tree r :=
  fun _ _ => .nothing

namespace Repository

variable {s s' : Repository} {curates : Nat → Prop} {n : Nat}

-- One step of a repository in which some sessions curate policies. The others write whatever they
-- like, but save only trees in which policies have their places. Besides, sessions come and go back
-- to what is saved, collectors and evaluators are asked, and privileges are registered.
inductive Hosts (curates : Nat → Prop) (s : Repository) : Repository → Prop
  | work {α ε : Type} (n : Nat) {work : SessionM ε α} (h : work.Composed)
    (curated : curates n → work.Curates ((s.session n).store s.saved)) :
    Hosts curates s (s.after (inSession n work))
  | save (n : Nat) (tidy : ¬curates n → (s.after (save n)).saved.store.Tidy) :
    Hosts curates s (s.after (save n))
  | use {s' : Repository} (h : Uses s s') (idle : Idles s s') : Hosts curates s s'
  | register (r : Registry) : Hosts curates s { s with registry := r }

def Hosted (curates : Nat → Prop) : Repository → Prop :=
  Relation.ReflTransGen (Hosts curates) (.initial .initial)

-- Policies have their places in the saved tree, and in every copy of a curating session that may be
-- saved they have come and gone as wholes.
structure Curated (curates : Nat → Prop) (s : Repository) : Prop where
  sound : s.Sound
  tree  : s.saved.store.Tidy
  copy  : ∀ {n : Nat} {c : WorkingCopy}, curates n → (s.session n).working = some c →
    c.base = s.saved.revision → s.saved.store.Revised c.store
  holds : s.Holds .none (fun _ => False) fun _ => False

theorem Hosts.moves (h : Hosts curates s s') : Moves s s' := by
  cases h
  case work n _ hw _ => exact .work n hw
  case save n _      => exact .save n
  case use h _       => exact h.moves
  case register      => exact .elsewhere rfl rfl rfl (Nat.le_refl _)

theorem Holds.none_uses (h : s.Holds .none (fun _ => False) fun _ => False) (hu : Uses s s') :
    s'.Holds .none (fun _ => False) fun _ => False := by
  rcases h.uses Truths.none_sustained (fun _ _ => trivial) hu with ⟨held, _⟩ | ⟨n, rfl⟩
  · exact held
  · rcases save_cases (s := s) (n := n) with heq | heq | ⟨c, _, heq⟩ <;> rw [heq]
    · exact h
    · exact ⟨h.subscribed, h.entries, h.answers⟩
    · have start : Current .none (fun _ => False) (fun _ => False)
          (s.committed n ⟨c.store, s.saved.revision + 1, s.saved.types⟩) :=
        ⟨⟨h.subscribed, h.entries, h.answers⟩, Truths.none_sustained⟩
      exact (start.dispatch _ fun _ _ => False.elim).holds

namespace Curated

theorem initial : Curated curates (.initial .initial) where
  sound       := .initial
  tree        := .initial (by decide)
  copy _ hc   := nomatch hc
  holds       := by
    refine ⟨.initial, fun hc => ?_, fun he => ?_⟩
    · simp [Repository.initial, Table.empty, Table.get?] at hc
    · simp [Repository.initial, Table.empty, Table.get?] at he

theorem desk (h : s.Curated curates) (hn : curates n) :
    Desk.Revises s.saved (fun _ => True) ⟨s.session n, s.nextId⟩ := by
  refine ⟨h.sound.desk, fun hb => ⟨?_, trivial⟩⟩
  cases hw : (s.session n).working
  case none   =>
    rw [Desk.store_of_none hw]
    exact .refl h.tree
  case some c =>
    rw [Desk.store_of_some hw]
    exact h.copy hn hw (by simpa [SessionM.copy, hw] using hb)

theorem hosts (h : s.Curated curates) (hh : Hosts curates s s') : s'.Curated curates := by
  have sound := h.sound.moves hh.moves
  cases hh
  case register =>
    exact ⟨sound, h.tree, h.copy, h.holds.subscribed, h.holds.entries, h.holds.answers⟩
  case use hu idle =>
    refine ⟨sound, idle.saved ▸ h.tree, fun hn hc => ?_, h.holds.none_uses hu⟩
    rw [idle.saved]
    exact h.copy hn (idle.copy hc)
  case save n tidy =>
    have holds := h.holds.none_uses (.save n)
    rcases save_cases (s := s) (n := n) with heq | heq | ⟨c, commits, -⟩
    · rwa [heq]
    · rw [heq] at sound holds ⊢
      exact ⟨sound, h.tree, fun hm hc => h.copy hm (committed_working hc), holds⟩
    · refine ⟨sound, ?_, fun _ hc hb => absurd hb (commits.outdated h.sound hc), holds⟩
      by_cases hn : curates n
      case neg => exact tidy hn
      case pos =>
        rw [commits.saved]
        exact (h.copy hn commits.working commits.base).tidy
  case work n work hw curated =>
    rw [after, run_inSession] at *
    refine ⟨sound, h.tree, fun {m c} hm hc hb => ?_, h.holds.subscribed, h.holds.entries,
      h.holds.answers⟩
    rcases session_set hc with ⟨rfl, hw⟩ | hc
    · have revises := (curated hm).revises (h.desk hm)
      rw [← Desk.store_of_some hw]
      exact (revises.tree (by simpa [SessionM.copy, hw] using hb)).1
    · exact h.copy hm hc hb

theorem hosted (h : Hosted curates s) : s.Curated curates := by
  induction h
  case refl       => exact initial
  case tail hh h  => exact h.hosts hh

-- What a curating session saves is another tree in which policies have come and gone as wholes.
theorem replaced {events : List Event} {saved : Saved} (h : s.Curated curates) (hn : curates n)
    (hc : (s.session n).commit s.saved = .ok (events, saved)) :
    s.saved.store.Replaced saved.store ∧ saved.types = .initial := by
  have before := h.sound.tree.wellFormed
  rcases Session.commit_cases hc with ⟨_, _, rfl⟩ | ⟨c, hw, hb, _, rfl⟩
  case inl => exact ⟨⟨before, before, .refl, h.tree, .refl h.tree⟩, h.sound.tree.types⟩
  case inr =>
    have copy := h.sound.session hw
    exact ⟨⟨before, copy.wellFormed hb, copy.follows hb, h.tree, h.copy hn hw hb⟩,
      h.sound.tree.types⟩

end Curated

end Repository

end PolicyTree
