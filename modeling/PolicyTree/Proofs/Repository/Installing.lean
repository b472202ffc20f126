import PolicyTree.Proofs.Access.Everyone
import PolicyTree.Proofs.Policy.Listing
import PolicyTree.Proofs.Repository.Editing
import PolicyTree.Proofs.Repository.Failing
import PolicyTree.Proofs.Repository.Lifecycle
import PolicyTree.Proofs.Repository.Providing

namespace PolicyTree

-- What the root's first policy says.

def Entry.allowing (principal : String) (x : Privilege) (owner : NodeHandle) : Entry :=
  ⟨principal, [x], true, ∅, owner⟩

namespace Policy

variable {r : Registry} {customs : List Privilege} {p q : Policy} {principal : String}
  {x : Privilege} {settings : Settings} {known : List String}

-- With an entry that allows one privilege.
def allow (r : Registry) (p : Policy) (principal privilege : String) :
    Except AccessError Policy := do
  let privileges ← r.getAll [privilege]
  return p.add (← Entry.make principal privileges true ∅ p.owner)

def furnish (settings : Settings) (known : List String) (r : Registry) (p : Policy) :
    Except AccessError Policy := do
  let p ← if known.contains settings.administrators then
      allow r p settings.administrators Privilege.allName
    else pure p
  allow r p settings.everyone Privilege.readName

def firstTerms (settings : Settings) (known : List String) :
    List (String × List String × Bool × Restrictions) :=
  (if known.contains settings.administrators then
    [(settings.administrators, [Privilege.allName], true, ∅)] else []) ++
  [(settings.everyone, [Privilege.readName], true, ∅)]

theorem of_allow (known : r.get x.name = .ok x) (h : allow r p principal x.name = .ok q) :
    q = p.add (.allowing principal x p.owner) ∧
      (Entry.allowing principal x p.owner).MadeFrom r := by
  obtain ⟨l, hl, h⟩ := bind_eq_ok_iff.1 h
  obtain ⟨e, he, h⟩ := bind_eq_ok_iff.1 h
  obtain rfl : l = [x] := by
    have : r.getAll [x.name] = .ok [x] := by simp [Registry.getAll, known]
    exact Except.ok.inj (hl.symm.trans this)
  have made := mapError_eq_ok_iff.1 he
  obtain ⟨_, _, _, _, rfl⟩ := Entry.make_eq_ok_iff.1 made
  exact ⟨(pure_eq_ok_iff.1 h).symm, [x], by simpa using known, made⟩

-- A policy is as it is to be given to the root, of privileges that the registry knows.
structure Furnished (settings : Settings) (known : List String) (r : Registry) (p : Policy) :
    Prop where
  terms    : p.entries.map Entry.terms = firstTerms settings known
  made     : ∀ e ∈ p.entries, e.MadeFrom r
  distinct : p.Distinct

theorem Furnished.restrictions_eq (h : p.Furnished settings known r) {e : Entry}
    (he : e ∈ p.entries) : e.restrictions = ∅ := by
  have he : e.terms ∈ firstTerms settings known := h.terms ▸ List.mem_map_of_mem he
  have unrestricted : ∀ terms ∈ firstTerms settings known, terms.2.2.2 = ∅ := by
    unfold firstTerms
    split <;> simp
  exact unrestricted _ he

theorem furnished (ledger : r.Ledger customs) {o : NodeHandle}
    (h : furnish settings known r (.empty o) = .ok p) :
    p.owner = o ∧ p.Furnished settings known r := by
  let all := Privilege.allWith (Registry.concretes customs)
  let read := Privilege.concrete Privilege.readName .read
  have knowsAll : r.get all.name = .ok all := Registry.get_eq_ok_iff.2 ledger.all
  have knowsRead : r.get read.name = .ok read :=
    Registry.get_eq_ok_iff.2 (ledger.knows (List.mem_append_left _ (by decide)))
  have other : (Entry.allowing settings.administrators all o).content ≠
      (Entry.allowing settings.everyone read o).content := by
    intro same
    have bits : 1 ∈ all.bits ↔ 1 ∈ read.bits := by
      simpa [Entry.content, Entry.bits, Entry.allowing, Privilege.mem_bitsOf] using
        congrArg (1 ∈ ·.2.1) same
    have held : 1 ∈ all.bits := Privilege.mem_bits_allWith.2
      ⟨.concrete "jcr:modifyProperties" .modifyProperties,
        List.mem_append_left _ (by decide), by decide⟩
    exact absurd (bits.1 held) (by decide)
  unfold furnish at h
  split at h
  case isFalse unknown =>
    obtain ⟨rfl, made⟩ := of_allow (x := read) knowsRead h
    refine ⟨rfl, ?_, ?_, distinct_empty.add _⟩
    · rw [firstTerms, if_neg unknown]
      rfl
    · exact fun e he => List.mem_singleton.1 he ▸ made
  case isTrue there =>
    obtain ⟨_, hp, h⟩ := bind_eq_ok_iff.1 h
    obtain ⟨rfl, made⟩ := of_allow (x := all) knowsAll hp
    obtain ⟨hp, made'⟩ := of_allow (x := read) knowsRead h
    let es := [Entry.allowing settings.administrators all o,
      Entry.allowing settings.everyone read o]
    have both : es.foldl add (empty o) = ⟨o, es⟩ := foldl_add (by simpa [empty, es] using other)
    obtain rfl : p = ⟨o, es⟩ := hp.trans both
    refine ⟨rfl, ?_, ?_, by simpa [Policy.Distinct, es] using other⟩
    · rw [firstTerms, if_pos there]
      rfl
    · intro e he
      simp only [es, List.mem_cons, List.not_mem_nil, or_false] at he
      rcases he with rfl | rfl
      case inl => exact made
      case inr => exact made'

end Policy

namespace Store

-- The root has got a policy, with entries on given terms, in the place of whatever had its name.
structure FirstPolicy (s s' : Store) (t : NodeTypes) (r : Registry)
    (terms : List (String × List String × Bool × Restrictions)) : Prop where
  set    : s.PolicySet s' t s.root
  stored : ∃ p policy ids, p.owner = ⟨s.root, Path.root⟩ ∧ p.entries.map Entry.terms = terms ∧
    s'.Lists t s.root policy ids (p.nodes policy) ∧
    (t.TellsEntries → ∃ q, Policy.load (s'.view t) r p.owner = .ok (some q) ∧ q.same p)

theorem WellFormed.owner_of_resolve_root {s : Store} {t : NodeTypes} {o : NodeHandle}
    (wf : s.WellFormed) (h : (s.view t).resolve Path.root = .ok (some o)) :
    o = ⟨s.root, Path.root⟩ := by
  have ⟨onPath, ns, stands, path⟩ := wf.of_resolve h
  obtain rfl := (Path.ofNames_eq_root_iff (wf.isSegment_of_stands stands)).1 path.symm
  have id : o.id = s.root := stands_nil_iff.1 stands
  show (⟨o.id, o.path⟩ : NodeHandle) = _
  rw [id, onPath]

end Store

-- A policy that is set takes the place of the former one, and is stored as a whole.
theorem SessionM.Ensures.whole_setPolicy {saved : Saved} {s : Store} {p : Policy} {path : String}
    (wf : s.WellFormed) (owned : (s.view saved.types).resolve path = .ok (some p.owner)) :
    Ensures saved (Desk.Shows saved (· = s)) (Editor.setPolicy path p)
      (fun _ => Desk.Shows saved fun s' =>
        s.Rewritten s' p.owner.id (s.lackedMixins saved.types p.owner.id) ∧
        ∃ policy ids, s'.Lists saved.types p.owner.id policy ids (p.nodes policy))
      fun _ => True := by
  have listed : Ensures saved (Desk.Shows saved (· = s)) (Editor.setPolicy path p) _ _ :=
    (setPolicy_of_store listed_store).weaken (fun _ hd => ⟨hd.orderly, trivial⟩) (fun _ _ => id)
      fun _ => id
  exact ((rewritten_setPolicy wf owned).and listed).weaken (fun _ => id)
    (fun _ _ hd => ⟨hd.1.orderly, hd.1.tree.2, hd.2.tree⟩) fun _ _ => trivial

namespace Repository

variable {α β ε : Type} {s s₀ : Repository} {t : NodeTypes} {n : Nat} {settings : Settings}
  {known : List String} {p : Policy} {customs : List Privilege}

-- Work that is begun where `P` holds ends where `Q` holds of its result, or fails where `E` holds.
def Ends (P : Repository → Prop) (work : RepositoryM ε α) (Q : α → Repository → Prop)
    (E : Repository → Prop) : Prop :=
  ∀ s, P s → match work.run.run s with
    | (.ok a, s) => Q a s
    | (.error _, s) => E s

namespace Ends

variable {P E E' : Repository → Prop} {Q : α → Repository → Prop} {R : β → Repository → Prop}
  {x : RepositoryM ε β}

theorem weaken {P' : Repository → Prop} {Q' : α → Repository → Prop} {work : RepositoryM ε α}
    (h : Ends P work Q E) (hP : ∀ s, P' s → P s) (hQ : ∀ a s, Q a s → Q' a s)
    (hE : ∀ s, E s → E' s) : Ends P' work Q' E' := by
  intro s hs
  have h := h s (hP s hs)
  rcases hr : work.run.run s with ⟨_ | a, s'⟩ <;> rw [hr] at h
  · exact hE _ h
  · exact hQ _ _ h

theorem assuming {F : Prop} {work : RepositoryM ε α} (hF : ∀ s, P s → F) (h : F → Ends P work Q E) :
    Ends P work Q E :=
  fun s hs => h (hF s hs) s hs

theorem pure {a : α} (h : ∀ s, P s → Q a s) : Ends P (pure a : RepositoryM ε α) Q E := h

theorem throw {e : ε} (h : ∀ s, P s → E s) : Ends P (throw e : RepositoryM ε α) Q E := h

theorem get : Ends P (get : RepositoryM ε Repository) (fun s s' => s' = s ∧ P s) E :=
  fun _ hs => ⟨rfl, hs⟩

theorem bind {f : β → RepositoryM ε α} (hx : Ends P x R E) (hf : ∀ b, Ends (R b) (f b) Q E) :
    Ends P (x >>= f) Q E := by
  intro s hs
  have hx := hx s hs
  rw [ExceptT.run_bind, StateT.run_bind]
  rcases hr : x.run.run s with ⟨_ | b, s'⟩ <;> rw [hr] at hx
  · exact hx
  · exact hf b s' hx

theorem rescued {rescue : ε → RepositoryM ε β} (hx : Ends P x R E)
    (hr : ∀ e, Ends E (rescue e) R E') : Ends P (tryCatch x rescue) R E' := by
  intro s hs
  have hx := hx s hs
  rw [ExceptT.run_tryCatch, StateT.run_bind]
  rcases h : x.run.run s with ⟨e | b, s'⟩ <;> rw [h] at hx
  · exact hr e s' hx
  · exact hx

theorem except {x : Except ε α} (h : ∀ s, P s → E s) :
    Ends P (liftM x : RepositoryM ε α) (fun a s => P s ∧ x = .ok a) E := by
  intro s hs
  cases x
  case error => exact h s hs
  case ok    => exact ⟨hs, rfl⟩

theorem tree {x : RepositoryM TreeError α} (h : Ends P x Q E) :
    Ends P (liftM x : RepositoryM AccessError α) Q E := by
  intro s hs
  have h := h s hs
  rw [run_tree]
  rcases hr : x.run.run s with ⟨_ | _, s'⟩ <;> rw [hr] at h <;> exact h

theorem after {work : RepositoryM ε α} {K : Repository → Prop} (h : Ends P work (fun _ => K) K)
    (hs : P s) : K (s.after work) := by
  have h := h s hs
  unfold Repository.after
  rcases hr : work.run.run s with ⟨_ | _, s'⟩ <;> rw [hr] at h <;> exact h

end Ends

structure Unsaved (n : Nat) (s₀ s : Repository) : Prop where
  saved  : s.saved = s₀.saved
  faults : (s.session n).faults = (s₀.session n).faults

-- A session has the policy in its tree, and has yet to save it.
structure Prepared (settings : Settings) (known : List String) (t : NodeTypes) (n : Nat)
    (s₀ s : Repository) : Prop where
  unsaved : Unsaved n s₀ s
  policy  : (s₀.treeOf n).FirstPolicy (s.treeOf n) t s₀.registry (Policy.firstTerms settings known)
  pending : (s.session n).isPending

structure Installed (settings : Settings) (known : List String) (t : NodeTypes) (n : Nat)
    (s₀ s : Repository) : Prop where
  revision : s.saved.revision = s₀.saved.revision + 1
  types    : s.saved.types = s₀.saved.types
  policy   : (s₀.treeOf n).FirstPolicy s.saved.store t s₀.registry
    (Policy.firstTerms settings known)
  settled  : ¬(s.session n).isPending

theorem Installed.revision_ne (h : Installed settings known t n s₀ s) :
    s.saved.revision ≠ s₀.saved.revision := by
  rw [h.revision]
  exact Nat.succ_ne_self _

theorem unsaved_after {work : SessionM ε α} (here : s.sessions.contains n) (hw : work.Composed) :
    Unsaved n s (s.after (inSession n work)) := by
  refine ⟨saved_after, ?_⟩
  rw [session_after here]
  have turns : Desk.Turns s.saved ⟨s.session n, s.nextId⟩ _ := hw.turns
  exact turns.faults_eq

theorem run_inSession_ask {question : TreeView → Except ε α} (here : s.sessions.contains n) :
    (inSession n (SessionM.ask question)).run.run s = (question (s.sessionView n), s) := by
  rw [run_inSession, SessionM.run'_ask]
  dsimp only
  rw [set_session here]
  rfl

theorem ends_applicable (h : s₀.Orderly t) (here : s₀.sessions.contains n) :
    Ends (· = s₀) (inSession n (Editor.applicablePolicy Path.root))
      (fun found s => s = s₀ ∧ ∀ p, found = some p → p = .empty ⟨(s₀.treeOf n).root, Path.root⟩)
      (· = s₀) := by
  rintro s rfl
  rw [Editor.applicablePolicy, run_inSession_ask here]
  rcases hf : (do
    let node ← Editor.target (s.sessionView n) Path.root
    return if (← Policy.node? (s.sessionView n) node).isSome then none else some (.empty node) :
      Except AccessError (Option Policy)) with _ | found
  case error => rfl
  case ok =>
    refine ⟨rfl, ?_⟩
    rintro p rfl
    obtain ⟨o, ho, hf⟩ := bind_eq_ok_iff.1 hf
    obtain ⟨policy, _, hf⟩ := bind_eq_ok_iff.1 hf
    have hf := pure_eq_ok_iff.1 hf
    split at hf
    case isTrue => exact nomatch hf
    case isFalse =>
      obtain rfl := Option.some_inj.1 hf
      have desk : (Desk.session ⟨s.session n, s.nextId⟩).view s.saved = s.sessionView n := rfl
      have resolved := SessionM.resolve_of_view (desk ▸ (Editor.target_eq_ok_iff.1 ho).1)
      rw [← Desk.store_eq, h.types] at resolved
      rw [h.wellFormed_treeOf.owner_of_resolve_root resolved]

theorem ends_allow {principal privilege : String} :
    Ends (· = s₀) (allowAtRoot p principal privilege)
      (fun q s => s = s₀ ∧ Policy.allow s₀.registry p principal privilege = .ok q) (· = s₀) := by
  refine .bind .get fun s => .bind (.except fun _ hs => hs.1.trans hs.2) fun privileges =>
    .bind (.except fun _ hs => hs.1.1.trans hs.1.2) fun e => .pure fun _ hs => ?_
  obtain ⟨⟨⟨rfl, rfl⟩, known⟩, made⟩ := hs
  exact ⟨rfl, bind_eq_ok_iff.2 ⟨_, known, bind_eq_ok_iff.2 ⟨_, made, rfl⟩⟩⟩

theorem isPending_setPolicy {path : String} (here : s.sessions.contains n)
    (done : ((inSession n (Editor.setPolicy path p)).run.run s).1 = .ok ()) :
    ((s.after (inSession n (Editor.setPolicy path p))).session n).isPending := by
  have stored : SessionM.Ensures s.saved _ (Editor.setPolicy path p) _ _ :=
    .setPolicy_of_store .pending_store
  rw [run_inSession] at done
  rw [session_after here]
  exact stored.of_ok trivial done

theorem owned_of_setPolicy {path : String}
    (done : ((inSession n (Editor.setPolicy path p)).run.run s).1 = .ok ()) :
    ∃ o, ((s.treeOf n).view s.saved.types).resolve path = .ok (some o) := by
  rw [run_inSession] at done
  rcases hw : (Editor.setPolicy path p).run' s.saved ⟨s.session n, s.nextId⟩ with ⟨_ | _, desk⟩ <;>
    rw [hw] at done
  case error => exact nomatch done
  case ok =>
    have ⟨⟨o, ho, _⟩, _⟩ := exists_of_setPolicy hw
    have ho := SessionM.resolve_of_view ho
    rw [← Desk.store_eq] at ho
    exact ⟨o, ho⟩

theorem prepared_setPolicy (h : s.Orderly t) (here : s.sessions.contains n)
    (owner : p.owner = ⟨(s.treeOf n).root, Path.root⟩)
    (hp : p.Furnished settings known s.registry)
    (done : ((inSession n (Editor.setPolicy Path.root p)).run.run s).1 = .ok ()) :
    Prepared settings known t n s (s.after (inSession n (Editor.setPolicy Path.root p))) := by
  have wf : (s.treeOf n).WellFormed := h.wellFormed_treeOf
  have there : (s.treeOf n).root ∈ (s.treeOf n).nodes :=
    Store.mem_nodes_iff.2 (wf.mem_of_stands (Store.stands_nil_iff.2 rfl))
  have owned : ((s.treeOf n).view s.saved.types).resolve Path.root = .ok (some p.owner) := by
    have ⟨o, ho⟩ := owned_of_setPolicy done
    rw [owner, ← wf.owner_of_resolve_root ho]
    exact ho
  have ⟨orderly, ⟨rewritten, policy, ids, lists⟩, follows⟩ :=
    h.of_ensures here SessionM.composed_setPolicy done (SessionM.Ensures.whole_setPolicy wf owned)
  rw [h.types] at rewritten lists
  refine ⟨unsaved_after here SessionM.composed_setPolicy, ⟨?_, p, policy, ids, owner, hp.terms, ?_,
    fun types => ?_⟩, isPending_setPolicy here done⟩
  · rw [owner] at rewritten
    exact rewritten.policySet wf orderly.wellFormed_treeOf follows there
  · rw [owner] at lists
    exact lists
  · refine lists.load_same orderly.wellFormed_treeOf types hp.distinct hp.made
      fun e he name hm => ?_
    rw [hp.restrictions_eq he] at hm
    exact absurd hm (by simp)

theorem ends_setPolicy (h : s₀.Orderly t) (here : s₀.sessions.contains n)
    (owner : p.owner = ⟨(s₀.treeOf n).root, Path.root⟩)
    (hp : p.Furnished settings known s₀.registry) :
    Ends (· = s₀) (inSession n (Editor.setPolicy Path.root p))
      (fun _ => Prepared settings known t n s₀) (Unsaved n s₀) := by
  rintro s rfl
  have unsaved : Unsaved n s (s.after (inSession n (Editor.setPolicy Path.root p))) :=
    unsaved_after here SessionM.composed_setPolicy
  rcases hr : (inSession n (Editor.setPolicy Path.root p)).run.run s with ⟨_ | _, s'⟩
  all_goals obtain rfl : s.after _ = s' := congrArg Prod.snd hr
  case error => exact unsaved
  case ok    => exact prepared_setPolicy h here owner hp (congrArg Prod.fst hr)

theorem ends_save : Ends (Prepared settings known t n s₀) (save n)
    (fun _ => Installed settings known t n s₀) (Unsaved n s₀) := by
  intro s prepared
  rcases hr : (save n).run.run s with ⟨e | _, s'⟩
  case error => exact eq_of_failed_save hr ▸ prepared.unsaved
  case ok =>
    obtain ⟨events, commit, dispatched⟩ := commit_of_save hr
    rcases Session.commit_cases commit with ⟨idle, _⟩ | ⟨copy, hw, _, _, saved⟩
    case inl =>
      -- There is something to save.
      have pending := prepared.pending
      simp [Session.isPending, idle] at pending
    have tree : s.treeOf n = s'.saved.store := by
      rw [saved, treeOf, Session.store, hw]
    have calm := keepsCalm_dispatch events (s.committed n s'.saved)
    rw [dispatched] at calm
    refine ⟨?_, ?_, tree ▸ prepared.policy, ?_⟩
    · rw [saved, prepared.unsaved.saved]
    · rw [saved, prepared.unsaved.saved]
    · rw [session, calm.sessions, committed, Table.get?_set, if_pos rfl]
      cases s.sessions.get? n <;> exact Bool.false_ne_true

theorem ends_installPolicy (h : s₀.Orderly t) (ledger : s₀.registry.Ledger customs)
    (here : s₀.sessions.contains n) :
    Ends (· = s₀) (installPolicy settings n known) (fun _ => Installed settings known t n s₀)
      (Unsaved n s₀) := by
  have start (s : Repository) (hs : s = s₀) : Unsaved n s₀ s := hs ▸ ⟨rfl, rfl⟩
  refine .bind ((ends_applicable h here).weaken (fun _ => id) (fun _ _ => id) start) fun found => ?_
  cases found
  case none => exact .throw fun s hs => start s hs.1
  case some p =>
    refine .assuming (fun _ hs => hs.2 p rfl) fun hp => ?_
    -- Whoever the entries are for, the policy is stored and saved in the same way.
    have store (q : Policy) : Ends
        (fun s => s = s₀ ∧ Policy.furnish settings known s₀.registry p = .ok q) (do
          inSession n (Editor.setPolicy Path.root q)
          save n : RepositoryM AccessError Unit)
        (fun _ => Installed settings known t n s₀) (Unsaved n s₀) := by
      refine .assuming (fun _ => And.right) fun hq => ?_
      have ⟨owner, furnished⟩ := Policy.furnished ledger (hp ▸ hq)
      exact .bind ((ends_setPolicy h here owner furnished).weaken (fun _ hs => hs.1)
        (fun _ _ => id) fun _ => id) fun _ => .tree ends_save
    refine .weaken (P := (· = s₀)) ?_ (fun _ hs => hs.1) (fun _ _ => id) fun _ => id
    dsimp only
    split
    case isTrue there =>
      refine .bind (ends_allow.weaken (fun _ => id) (fun _ _ => id) start) fun p₁ => ?_
      refine .assuming (fun _ => And.right) fun h₁ => .bind (ends_allow.weaken (fun _ hs => hs.1)
        (fun q s hs => ⟨hs.1, ?_⟩) start) store
      rw [Policy.furnish, if_pos there]
      exact bind_eq_ok_iff.2 ⟨p₁, h₁, hs.2⟩
    case isFalse there =>
      have same : Ends (· = s₀) (pure p : RepositoryM AccessError Policy)
          (fun q s => s = s₀ ∧ q = p) (Unsaved n s₀) := .pure fun _ hs => ⟨hs, rfl⟩
      refine .bind same fun q => .assuming (fun _ => And.right) fun hq => ?_
      refine .bind (ends_allow.weaken (fun _ hs => hs.1) (fun q s hs => ⟨hs.1, ?_⟩) start) store
      rw [Policy.furnish, if_neg there]
      exact hq ▸ hs.2

-- What could not be installed is dropped, unless the session does not let go of it.
structure Dropped (n : Nat) (s₀ s : Repository) : Prop where
  saved   : s.saved = s₀.saved
  settled : (s₀.session n).faults.check .refresh = .ok () → ¬(s.session n).isPending

theorem ends_refresh :
    Ends (Unsaved n s₀) (refresh n false) (fun _ => Dropped n s₀) (Dropped n s₀) := by
  intro s unsaved
  rw [run_refresh, unsaved.faults]
  cases hf : (s₀.session n).faults.check .refresh
  case error =>
    refine ⟨unsaved.saved, fun calm => ?_⟩
    cases hf.symm.trans calm
  case ok =>
    refine ⟨unsaved.saved, fun _ => ?_⟩
    rw [session, Table.get?_modify, if_pos rfl]
    cases s.sessions.get? n <;> exact Bool.false_ne_true

def rootPolicy? (s : Repository) (n : Nat) : Except TreeError (Option NodeHandle) := do
  Policy.node? (s.sessionView n) (← (s.sessionView n).root)

def tryPolicy (settings : Settings) (n : Nat) (known : List String) :
    RepositoryM AccessError Unit := do
  try installPolicy settings n known
  catch _ =>
    try refresh n false
    catch _ => pure ()

theorem run_question_bind {x : Except TreeError β} {f : β → RepositoryM AccessError α} :
    (do f (← x) : RepositoryM AccessError α).run.run s =
      match x with
      | .error e => (.error (.tree e), s)
      | .ok b => (f b).run.run s := by
  cases x <;> rfl

theorem run_ensureRootPolicy : (ensureRootPolicy settings n known).run.run s =
    match s.rootPolicy? n with
    | .error e => (.error (.tree e), s)
    | .ok (some _) => (.ok (), s)
    | .ok none => (tryPolicy settings n known).run.run s := by
  refine run_get_bind.trans (run_question_bind.trans ?_)
  rw [rootPolicy?]
  cases (s.sessionView n).root
  case error => rfl
  case ok root =>
    refine run_question_bind.trans ?_
    have read : (do Policy.node? (s.sessionView n) (← Except.ok root)) =
        Policy.node? (s.sessionView n) root := rfl
    rw [read]
    rcases Policy.node? (s.sessionView n) root with _ | _ | _ <;> rfl

-- If the root is to get a policy it gets one or nothing is saved, and otherwise nothing happens.
structure Ensured (lacking : Prop) (settings : Settings) (known : List String) (t : NodeTypes)
    (n : Nat) (s₀ s : Repository) : Prop where
  attempted : lacking → Installed settings known t n s₀ s ∨ Dropped n s₀ s
  untouched : ¬lacking → s.saved = s₀.saved ∧ s.session n = s₀.session n

namespace Ensured

variable {lacking : Prop} {s' : Repository}

theorem refl (h : ¬lacking) : Ensured lacking settings known t n s s :=
  ⟨(absurd · h), fun _ => ⟨rfl, rfl⟩⟩

theorem of_eq (h : Ensured lacking settings known t n s₀ s) (saved : s'.saved = s.saved)
    (session : s'.session n = s.session n) : Ensured lacking settings known t n s₀ s' where
  attempted hl := (h.attempted hl).imp
    (fun ⟨revision, types, policy, settled⟩ =>
      ⟨saved ▸ revision, saved ▸ types, saved ▸ policy, session ▸ settled⟩)
    fun ⟨same, settled⟩ => ⟨saved ▸ same, session ▸ settled⟩
  untouched hl := have ⟨same, same'⟩ := h.untouched hl
    ⟨saved ▸ same, session ▸ same'⟩

end Ensured

theorem ends_ensureRootPolicy {lacking : Prop} (h : s₀.Orderly t)
    (ledger : s₀.registry.Ledger customs) (here : s₀.sessions.contains n)
    (hl : lacking ↔ s₀.rootPolicy? n = .ok none) :
    Ends (· = s₀) (ensureRootPolicy settings n known)
      (fun _ => Ensured lacking settings known t n s₀)
      (Ensured lacking settings known t n s₀) := by
  rintro s rfl
  rw [run_ensureRootPolicy]
  rcases hp : s.rootPolicy? n with _ | _ | _ <;> rw [hp] at hl
  case error   => exact .refl (hl.not.2 nofun)
  case ok.some => exact .refl (hl.not.2 nofun)
  case ok.none =>
    have lacks : lacking := hl.2 rfl
    let Ensures := Ensured lacking settings known t n s
    have dropped (s' : Repository) (hd : Dropped n s s') : Ensures s' :=
      ⟨fun _ => .inr hd, (absurd lacks ·)⟩
    have tried : Ends (· = s) (tryPolicy settings n known) (fun _ => Ensures) Ensures :=
      .rescued ((ends_installPolicy h ledger here).weaken (fun _ => id)
        (fun _ _ hi => ⟨fun _ => .inl hi, (absurd lacks ·)⟩) fun _ => id) fun _ =>
      .rescued (.tree (ends_refresh.weaken (fun _ => id) (fun _ => dropped) fun _ => id)) fun _ =>
      .pure dropped
    exact tried s rfl

theorem ends_equip {K : Repository → Prop} {p : Nat} (hK : ∀ s s' : Repository,
      s'.saved = s.saved → (∀ n, s'.session n = s.session n) → K s → K s') :
    Ends K (equip p settings) (fun _ => K) K := by
  intro s hs
  rw [run_equip]
  cases s.observationFaults.check .subscribe
  case error => exact hs
  case ok    => exact hK s _ rfl (fun _ => rfl) hs

-- Making a provider ready gives the root its first policy as a whole or not at all, whatever fails
-- on the way. What was written of a policy that was not saved is dropped. Where the root has a
-- policy, or is not to get one, the session keeps its changes.
theorem first_policy_is_all_or_nothing {calls : List Registration} {p : Nat}
    (reached : Relation.ReflTransGen Moves (.initial t) s)
    (registry : s.registry = Registry.after calls) (here : s.sessions.contains n)
    (created : s.providers.get? p = some ⟨settings, .created⟩) (known : List String) :
    let s' := s.after (initProvider p n known)
    let lacking := s.rootPolicy? n = .ok none ∧ settings.omitDefaultPolicy = false
    (s'.saved = s.saved ∨ Installed settings known t n s s') ∧
    (lacking → (s.session n).faults.check .refresh = .ok () → ¬(s'.session n).isPending) ∧
    (¬lacking → s'.saved = s.saved ∧ s'.session n = s.session n) := by
  intro s' lacking
  have ledger : s.registry.Ledger _ := registry ▸ Registry.ledger_after calls
  have equips {K : Prop} : Ends (Ensured K settings known t n s) (equip p settings)
      (fun _ => Ensured K settings known t n s) (Ensured K settings known t n s) :=
    ends_equip fun _ _ saved session h => h.of_eq saved (session n)
  have ends : Ends (· = s) (initProvider p n known)
      (fun _ => Ensured lacking settings known t n s) (Ensured lacking settings known t n s) := by
    rintro s rfl
    rw [run_initProvider_first (provider_eq created)]
    cases ho : settings.omitDefaultPolicy
    case false =>
      have lacks : lacking ↔ s.rootPolicy? n = .ok none := by simp [lacking, ho]
      have ensure : Ends (· = s) (ensureRootPolicy settings n known) _ _ :=
        ends_ensureRootPolicy (.reached reached) ledger here lacks
      exact ensure.bind (fun _ => equips) s rfl
    case true => exact equips s (.refl (by simp [lacking, ho]))
  have ensured := ends.after rfl
  refine ⟨?_, fun hl calm => ?_, ensured.untouched⟩
  · by_cases hl : lacking
    case pos => exact (ensured.attempted hl).elim .inr fun dropped => .inl dropped.saved
    case neg => exact .inl (ensured.untouched hl).1
  · exact (ensured.attempted hl).elim (·.settled) (·.settled calm)

theorem registry_hired : hired.registry = Registry.after [] := rfl

theorem reached_hired : Relation.ReflTransGen Moves (.initial .initial) hired :=
  .tail (.tail .refl (.login .empty)) (.elsewhere rfl rfl rfl (Nat.le_refl _))

-- While a session has something to save, another one saves.
def overtaken : Repository :=
  hired.after (ε := TreeError) (login .empty)
    |>.after (inSession 0 (SessionM.addNode ⟨⟨0⟩, "/"⟩ "pending" "nt:unstructured"))
    |>.after (inSession 1 (SessionM.addNode ⟨⟨0⟩, "/"⟩ "other" "nt:unstructured"))
    |>.after (save 1)

theorem reached_overtaken : Relation.ReflTransGen Moves (.initial .initial) overtaken :=
  reached_hired.tail (.login .empty) |>.tail (.work 0 (.addNode ..)) |>.tail (.work 1 (.addNode ..))
    |>.tail (.save 1)

theorem registry_overtaken : overtaken.registry = Registry.after [] := by
  rw [overtaken, registry_after_save, registry_after, registry_after]
  rfl

theorem providers_overtaken : overtaken.providers.get? 0 = some ⟨.initial, .created⟩ := by
  rw [overtaken, still_save.providers, still_inSession.providers, still_inSession.providers]
  rfl

theorem first_policy_of_hired_and_overtaken :
    Installed .initial ["administrators"] .initial 0 hired
      (hired.after (initProvider 0 0 ["administrators"])) ∧
    (overtaken.session 0).isPending ∧
    (overtaken.after (initProvider 0 0 ["administrators"])).saved = overtaken.saved ∧
    ¬((overtaken.after (initProvider 0 0 ["administrators"])).session 0).isPending := by
  have ⟨installed, pending, lacking, calm, unsaved⟩ :
      (hired.after (initProvider 0 0 ["administrators"])).saved.revision ≠ hired.saved.revision ∧
      (overtaken.session 0).isPending ∧ overtaken.rootPolicy? 0 = .ok none ∧
      (overtaken.session 0).faults.check .refresh = .ok () ∧
      (overtaken.after (initProvider 0 0 ["administrators"])).saved.revision =
        overtaken.saved.revision := by decide +kernel
  have ⟨whole, _⟩ := first_policy_is_all_or_nothing reached_hired registry_hired (n := 0)
    (by decide +kernel) (p := 0) rfl ["administrators"]
  have ⟨nothing, dropped, _⟩ := first_policy_is_all_or_nothing reached_overtaken registry_overtaken
    (n := 0) (by decide +kernel) providers_overtaken ["administrators"]
  exact ⟨whole.resolve_left fun same => installed (congrArg Saved.revision same), pending,
    nothing.resolve_right fun saved => saved.revision_ne unsaved, dropped ⟨lacking, rfl⟩ calm⟩

end Repository

end PolicyTree
