import Mathlib.Logic.Relation
import Mathlib.Tactic.Common
import PolicyTree.Proofs.Access.Owning
import PolicyTree.Proofs.Repository.Broadcasting

namespace PolicyTree

theorem SessionM.Respects.edits {α ε : Type} {work : SessionM ε α} {tree : Store}
    (h : work.Respects tree) : work.Edits tree := by
  cases h
  case setPolicy path p _            => exact .setPolicy path p
  case removePolicy path             => exact .removePolicy path
  case addNode outside name _ plain  => exact .addNode _ name _ outside plain
  case addMixin outside _ plain      => exact .addMixin _ _ plain
  case setProperty node name value   => exact .setProperty node name value
  case removeProperty node name      => exact .removeProperty node name
  case removeNode node               => exact .removeNode node
  case ask question                  => exact .ask question

namespace Repository

variable {s s' : Repository} {path : String}

-- One step of a repository whose sessions leave policies to the editor. Besides, sessions come and
-- go back to what is saved, collectors and evaluators are asked, and privileges are registered.
inductive Respects (s : Repository) : Repository → Prop
  | work {α ε : Type} (n : Nat) {work : SessionM ε α}
    (h : work.Respects ((s.session n).store s.saved)) : Respects s (s.after (inSession n work))
  | save (n : Nat) : Respects s (s.after (save n))
  | use {s' : Repository} (h : Uses s s') (idle : Idles s s') : Respects s s'
  | register (r : Registry) : Respects s { s with registry := r }

def Respected : Repository → Prop := Relation.ReflTransGen Respects (.initial .initial)

-- Policies stand in their places in all that is saved or may be, and in no tree that anybody reads
-- do they nest.
structure Ordered (s : Repository) : Prop where
  tended  : s.Tended
  orderly : s.Orderly .initial
  tree    : s.saved.store.Unnested
  copy    : ∀ {n : Nat} {c : WorkingCopy}, (s.session n).working = some c → c.store.Unnested

theorem Respects.moves (h : Respects s s') : Moves s s' := by
  cases h
  case work n _ h => exact .work n h.edits.composed
  case save n     => exact .save n
  case use h _    => exact h.moves
  case register   => exact .elsewhere rfl rfl rfl (Nat.le_refl _)

namespace Ordered

theorem initial : Ordered (.initial .initial) where
  tended  := .initial
  orderly := .initial
  tree    := .initial (by decide)
  copy hc := nomatch hc

theorem desk (h : s.Ordered) (n : Nat) :
    Desk.Shows s.saved Store.Unnested ⟨s.session n, s.nextId⟩ := by
  refine ⟨h.orderly.desk n, ?_⟩
  cases hw : (s.session n).working
  case none   =>
    rw [Desk.store_of_none hw]
    exact h.tree
  case some c =>
    rw [Desk.store_of_some hw]
    exact h.copy hw

theorem respects (h : s.Ordered) (hr : Respects s s') : s'.Ordered := by
  have orderly := h.orderly.moves hr.moves
  cases hr
  case register r =>
    have sound : Sound { s with registry := r } :=
      h.tended.sound.moves (.elsewhere rfl rfl rfl (Nat.le_refl _))
    exact ⟨⟨sound, h.tended.tree, h.tended.copy⟩, orderly, h.tree, h.copy⟩
  case use hu idle =>
    exact ⟨h.tended.uses hu, orderly, idle.saved ▸ h.tree, fun hc => h.copy (idle.copy hc)⟩
  case save n =>
    have tended := h.tended.uses (.save n)
    rcases save_cases (s := s) (n := n) with same | same | ⟨c, commits, -⟩
    · rwa [same]
    · rw [same] at tended orderly ⊢
      exact ⟨tended, orderly, h.tree, fun hc => h.copy (committed_working hc)⟩
    · refine ⟨tended, orderly, ?_, fun hc => h.copy (commits.copy hc)⟩
      rw [commits.saved]
      exact h.copy commits.working
  case work n work hw =>
    have tended := h.tended.uses (.edit n hw.edits)
    have shows := hw.unnested h.orderly.types (h.desk n)
    rw [after, run_inSession] at *
    refine ⟨tended, orderly, h.tree, fun {m c} hc => ?_⟩
    rcases session_set hc with ⟨_, hw⟩ | hc
    · rw [← Desk.store_of_some hw]
      exact shows.tree
    · exact h.copy hc

theorem respected (h : Respected s) : s.Ordered := by
  induction h
  case refl        => exact initial
  case tail _ hr h => exact h.respects hr

end Ordered

-- Every path is governed by a node. If the path is at or below a policy this is the owner of it,
-- and the path is said to be one of access control content. If not it is the deepest node at or
-- above the path.
theorem every_path_is_governed (h : Respected s) (valid : Path.validate path = .ok ()) :
    ∃ node isPolicyItem, governor s.view path = .ok (node, isPolicyItem) ∧
      (∀ owner, LeadsInto s.view owner path →
        s.view.resolve owner = .ok (some node) ∧ isPolicyItem = true) ∧
      ((∀ owner, ¬LeadsInto s.view owner path) →
        isPolicyItem = false ∧ Deepest s.view path node) := by
  have ordered := Ordered.respected h
  have sound := ordered.tended.sound
  rw [sound.view_eq]
  exact ordered.tended.tree.exists_governor sound.tree.wellFormed ordered.tree valid

theorem respected_twoPolicies : Respected twoPolicies := by
  have add {s : Repository} {name : String}
      (outside : ¬((s.session 0).store s.saved).IsContent ⟨0⟩) :
      Respects s (s.after (inSession 0 (SessionM.addNode ⟨⟨0⟩, "/"⟩ name "nt:unstructured"))) :=
    .work 0 (.addNode outside name (by decide))
  have set {s : Repository} {p : Policy}
      (genuine : ((s.session 0).store s.saved).handle? p.owner.id = some p.owner) :
      Respects s (s.after (inSession 0 (Editor.setPolicy p.owner.path p))) :=
    .work 0 (.setPolicy _ fun _ ho => Option.some_inj.1 (ho.symm.trans genuine))
  have login : Respects (.initial .initial) _ := .use (.login .empty) .login
  have collects {s : Repository} : Respects s (s.after (openCollector 10)) :=
    .use (.check (.openCollector 10)) (Checks.openCollector 10).rests.idles
  refine .tail (.tail (.tail (.tail (.tail (.tail (.tail .refl login) collects) (add ?_)) (add ?_))
    (set (p := readers ⟨⟨1⟩, "/a"⟩) ?_)) (set (p := ⟨⟨⟨2⟩, "/b"⟩, []⟩) ?_)) (.save 0)
  all_goals decide +kernel

theorem below_entry_is_governed_by_owner :
    let path := "/a/rep:policy/allow/note"
    Respected twoPolicies ∧ Path.validate path = .ok () ∧ ∃ node,
      governor twoPolicies.view path = .ok (node, true) ∧
      twoPolicies.view.resolve "/a" = .ok (some node) := by
  intro path
  have ⟨valid, validOwner, there, isList, covers⟩ : Path.validate path = .ok () ∧
      Path.validate "/a" = .ok () ∧
      twoPolicies.view.resolve (Path.join "/a" Policy.nodeName) =
        .ok (some ⟨⟨3⟩, "/a/rep:policy"⟩) ∧
      twoPolicies.view.isType ⟨⟨3⟩, "/a/rep:policy"⟩ Policy.listType = .ok true ∧
      Path.covers (Path.join "/a" Policy.nodeName) path := by decide +kernel
  have ⟨node, _, governs, into, _⟩ := every_path_is_governed respected_twoPolicies valid
  have ⟨resolved, marked⟩ := into "/a" ⟨⟨validOwner, _, there, isList⟩, covers⟩
  exact ⟨respected_twoPolicies, valid, node, marked ▸ governs, resolved⟩

end Repository

end PolicyTree
