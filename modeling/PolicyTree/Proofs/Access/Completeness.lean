import PolicyTree.Proofs.Access.Asking
import PolicyTree.Proofs.Access.Collecting
import PolicyTree.Proofs.Policy.Readability
import PolicyTree.Proofs.Tree.Histories

namespace PolicyTree

namespace Store

variable {s : Store} {t : NodeTypes} {r : Registry} {ps : PrincipalSet} {ns : List String}
  {nss : List (List String)} {id : NodeId} {ids : List NodeId} {o : NodeHandle} {n : Node}

-- The entries of some principals at the nodes on a way: principal by principal, and for each along
-- the way.
def entriesOn (s : Store) (t : NodeTypes) (r : Registry) (ps : PrincipalSet) (way : List NodeId) :
    List Entry :=
  ps.names.flatMap fun name => way.flatMap fun id => (s.listAt t r id).filter (·.principal = name)

theorem byPrincipal_eq : Collection.byPrincipal ps
    (ids.map fun id => (s.listAt t r id).filter fun e => ps.contains e.principal) =
      s.entriesOn t r ps ids := by
  refine List.flatMap_congr fun name hname => ?_
  rw [List.flatMap_map]
  refine List.flatMap_congr fun id _ => ?_
  rw [List.filter_filter]
  refine List.filter_congr fun e _ => ?_
  by_cases he : e.principal = name
  case pos => simp [he, PrincipalSet.contains, hname]
  case neg => simp [he]

theorem mem_entriesOn {e : Entry} : e ∈ s.entriesOn t r ps ids ↔
    e.principal ∈ ps.names ∧ ∃ id ∈ ids, e ∈ s.listAt t r id := by
  simp only [entriesOn, List.mem_flatMap, List.mem_filter, decide_eq_true_eq]
  constructor
  case mp =>
    intro he
    have ⟨name, hname, id, hid, he, hp⟩ := he
    exact ⟨hp ▸ hname, id, hid, he⟩
  case mpr =>
    intro he
    have ⟨hname, id, hid, he⟩ := he
    exact ⟨e.principal, hname, id, hid, he, rfl⟩

namespace WellFormed

variable (h : s.WellFormed)

include h

theorem levelAt_of_malformed (hs : s.Stands ns id) (hm : s.Malformed t r id) :
    ∃ e, s.levelAt t r ps ns = .error e := by
  have ⟨n, hn⟩ := h.mem_of_stands hs
  rw [h.levelAt_of_stands hs, Collection.level]
  cases hl : Policy.load (s.view t) r ⟨id, Path.ofNames ns⟩
  case error e => exact ⟨e, rfl⟩
  case ok list => exact absurd hm ((h.load_isOk_iff hn).1 ⟨list, hl⟩)

theorem levelAt_of_readable (hs : s.Stands ns id) (hm : ¬s.Malformed t r id) :
    s.levelAt t r ps ns =
      .ok ((s.listAt t r id).filter fun e => ps.contains e.principal) := by
  have ⟨n, hn⟩ := h.mem_of_stands hs
  have ⟨list, hl⟩ := (h.load_isOk_iff (o := ⟨id, Path.ofNames ns⟩) hn).2 hm
  rw [h.levelAt_of_stands hs, Collection.level, hl, listAt, h.handle_eq hs, Option.map_some, hl]
  cases list <;> rfl

variable (t r ps) in
-- One policy that cannot be read fails them all.
theorem levels_cases (hw : List.Forall₂ s.Stands nss ids) :
    ((∃ id ∈ ids, s.Malformed t r id) ∧ ∃ e, nss.mapM (s.levelAt t r ps) = .error e) ∨
      (∀ id ∈ ids, ¬s.Malformed t r id) ∧ nss.mapM (s.levelAt t r ps) =
        .ok (ids.map fun id => (s.listAt t r id).filter fun e => ps.contains e.principal) := by
  induction hw
  case nil => exact .inr ⟨by simp, rfl⟩
  case cons ns id nss ids hs _ hi =>
    simp only [List.mapM_cons, List.exists_mem_cons_iff, List.forall_mem_cons]
    by_cases hm : s.Malformed t r id
    case pos =>
      have ⟨e, he⟩ : ∃ e, s.levelAt t r ps ns = .error e := h.levelAt_of_malformed hs hm
      exact .inl ⟨.inl hm, e, by simp [he, bind, Except.bind]⟩
    case neg =>
      have level : s.levelAt t r ps ns = .ok _ := h.levelAt_of_readable hs hm
      cases hi
      case inl hi =>
        have ⟨malformed, e, he⟩ := hi
        exact .inl ⟨.inr malformed, e, by simp [level, he, bind, Except.bind]⟩
      case inr hi =>
        have ⟨readable, rest⟩ := hi
        exact .inr ⟨⟨hm, readable⟩, by simp [level, rest, bind, Except.bind, pure, Except.pure]⟩

variable (t r ps) in
theorem collect_cases (ho : s.handle? id = some o) : ∃ way, s.lineage? id = some way ∧
    (((∃ x ∈ way, s.Malformed t r x.1) ∧ ∃ e, collect (s.view t) r ps o = .error e) ∨
      (∀ x ∈ way, ¬s.Malformed t r x.1) ∧
        collect (s.view t) r ps o = .ok (s.entriesOn t r ps (way.map (·.1)))) := by
  obtain ⟨rfl, ns, hs, hpath⟩ := h.handle_eq_some_iff.1 ho
  obtain ⟨way, hway, _, stands⟩ := h.lineage_eq hs
  have collected : collect (s.view t) r ps o = s.entriesAlong t r ps ns := by
    rw [← h.collect_eq_of_stands hs, ← hpath]
  refine ⟨way, hway, ?_⟩
  rw [collected, entriesAlong]
  refine (h.levels_cases t r ps stands).imp (fun hl => ?_) fun hl => ?_
  · obtain ⟨malformed, e, he⟩ := hl
    exact ⟨by simpa using malformed, e, by rw [he]; rfl⟩
  · obtain ⟨readable, levels⟩ := hl
    exact ⟨by simpa using readable, by rw [levels, ← byPrincipal_eq]; rfl⟩

-- No node comes twice on a way.
theorem nodup_lineage {way : List (NodeId × Node)} (hs : s.Stands ns id)
    (hw : s.lineage? id = some way) : (way.map (·.1)).Nodup := by
  have ⟨way', hw', _, stands⟩ := h.lineage_eq hs
  obtain rfl := Option.some_inj.1 (hw.symm.trans hw')
  have unique : Relator.BiUnique s.Stands :=
    ⟨fun _ _ _ => h.stands_unique, fun _ _ _ => h.stands_inj⟩
  exact (List.rel_nodup unique stands).1 (List.nodup_reverse.2 Path.nodup_inits)

-- Entries of different principals are different, and so are those of different nodes.
theorem nodup_entriesOn (hids : ids.Nodup) : (s.entriesOn t r ps ids).Nodup := by
  have principal {name : String} {e : Entry} (he : e ∈ ids.flatMap fun id =>
      (s.listAt t r id).filter (·.principal = name)) : e.principal = name := by
    have ⟨_, _, he⟩ := List.mem_flatMap.1 he
    simpa using (List.mem_filter.1 he).2
  refine List.nodup_flatMap.2 ⟨fun name _ => List.nodup_flatMap.2 ⟨fun id _ => ?_, ?_⟩, ?_⟩
  · exact h.listAt_keeps.2.filter _
  · refine hids.imp fun {a b} hab e ha hb => hab ?_
    rw [← h.listAt_keeps.1 e (List.mem_filter.1 ha).1, h.listAt_keeps.1 e (List.mem_filter.1 hb).1]
  · exact ps.names_distinct.imp fun hne e ha hb => hne ((principal ha).symm.trans (principal hb))

end WellFormed

end Store

variable {s : Store} {t : NodeTypes} {r : Registry} {ps : PrincipalSet} {o : NodeHandle}
  {c : Collector}

-- A collection that is not in the cache fails if and only if a policy on the way to the root cannot
-- be read, whoever its entries are for, and nothing is kept of it then. Otherwise it is all entries
-- of the principals on that way, in order.
theorem Collector.entries_complete (h : s.WellFormed) (ho : s.handle? o.id = some o)
    (miss : c.cache.contains (.of ps o) = false) :
    let out := (Collector.entries (s.view t) r ps o).run.run c
    ∃ way, s.lineage? o.id = some way ∧
      ((∃ e, out.1 = .error e) ↔ ∃ x ∈ way, s.Malformed t r x.1) ∧
      (∀ e, out.1 = .error e →
        out.2 = { c with cache := { c.cache with misses := c.cache.misses + 1 } }) ∧
      ∀ es, out.1 = .ok es →
        es = (ps.names.flatMap fun name => way.flatMap fun x =>
          (s.listAt t r x.1).filter (·.principal = name)) ∧
        es.Nodup ∧
        ∀ e, e ∈ es ↔ e.principal ∈ ps.names ∧ ∃ x ∈ way, e ∈ s.listAt t r x.1 := by
  obtain ⟨way, hw, collected⟩ := h.collect_cases t r ps ho
  refine ⟨way, hw, ?_⟩
  rw [Collector.run_entries, Cache.get_of_not_contains miss]
  cases collected
  case inl hc =>
    obtain ⟨malformed, e, he⟩ := hc
    rw [he]
    dsimp only
    exact ⟨iff_of_true ⟨e, rfl⟩ malformed, fun _ _ => rfl, by simp⟩
  case inr hc =>
    obtain ⟨readable, he⟩ := hc
    obtain ⟨_, ns, hs, _⟩ := h.handle_eq_some_iff.1 ho
    rw [he]
    dsimp only
    refine ⟨iff_of_false (by simp) fun hc => ?_, by simp, fun es hes => ?_⟩
    · obtain ⟨x, hx, hm⟩ := hc
      exact readable x hx hm
    · obtain rfl := Except.ok.inj hes
      refine ⟨by simp [Store.entriesOn, List.flatMap_map],
        h.nodup_entriesOn (h.nodup_lineage hs hw), fun e => ?_⟩
      simp [Store.mem_entriesOn]

-- Policies of a page and of the root, the last entry of which is still without its privileges.
def unfinished : Store := (Store.initial ⟨0⟩ "rep:root").afterAll [
  ⟨.addNode ⟨⟨0⟩, "/"⟩ "page" "nt:unstructured", ⟨1⟩⟩,
  ⟨.addMixin ⟨⟨1⟩, "/page"⟩ "rep:AccessControllable", ⟨2⟩⟩,
  ⟨.addNode ⟨⟨1⟩, "/page"⟩ "rep:policy" "rep:ACL", ⟨2⟩⟩,
  ⟨.addNode ⟨⟨2⟩, "/page/rep:policy"⟩ "allow" "rep:GrantACE", ⟨3⟩⟩,
  ⟨.setProperty ⟨⟨3⟩, "/page/rep:policy/allow"⟩ "rep:principalName" (.string "alice"), ⟨4⟩⟩,
  ⟨.setProperty ⟨⟨3⟩, "/page/rep:policy/allow"⟩ "rep:privileges" (.names ["jcr:read"]), ⟨4⟩⟩,
  ⟨.addMixin ⟨⟨0⟩, "/"⟩ "rep:AccessControllable", ⟨4⟩⟩,
  ⟨.addNode ⟨⟨0⟩, "/"⟩ "rep:policy" "rep:ACL", ⟨4⟩⟩,
  ⟨.addNode ⟨⟨4⟩, "/rep:policy"⟩ "deny" "rep:DenyACE", ⟨5⟩⟩,
  ⟨.setProperty ⟨⟨5⟩, "/rep:policy/deny"⟩ "rep:principalName" (.string "bob"), ⟨6⟩⟩,
  ⟨.setProperty ⟨⟨5⟩, "/rep:policy/deny"⟩ "rep:privileges" (.names ["jcr:write"]), ⟨6⟩⟩,
  ⟨.addNode ⟨⟨4⟩, "/rep:policy"⟩ "allow" "rep:GrantACE", ⟨6⟩⟩,
  ⟨.setProperty ⟨⟨6⟩, "/rep:policy/allow"⟩ "rep:principalName" (.string "alice"), ⟨7⟩⟩]

def finished : Store := unfinished.afterAll [
  ⟨.setProperty ⟨⟨6⟩, "/rep:policy/allow"⟩ "rep:privileges" (.names ["jcr:write"]), ⟨7⟩⟩]

-- As long as an entry for alice is not finished, none are collected for bob either.
theorem unfinished_policy_fails_collection :
    let page : NodeHandle := ⟨⟨1⟩, "/page"⟩
    let bob := PrincipalSet.ofList [.named "bob"]
    let both := PrincipalSet.ofList [.named "bob", .named "alice"]
    let c := Collector.new 8 ⟨0⟩
    unfinished.WellFormed ∧ unfinished.handle? page.id = some page ∧
    c.cache.contains (.of bob page) = false ∧
    (∃ x, unfinished.Malformed .initial .initial x) ∧
    ((Collector.entries (unfinished.view .initial) .initial bob page).run.run c).2.cache.entries =
      [] ∧
    finished.WellFormed ∧ finished.handle? page.id = some page ∧
    c.cache.contains (.of both page) = false ∧
    ∃ es, ((Collector.entries (finished.view .initial) .initial both page).run.run c).1 = .ok es ∧
      es.map (fun e => (e.principal, e.owner.path)) =
        [("bob", "/"), ("alice", "/page"), ("alice", "/")] ∧ es.Nodup := by
  intro page bob both c
  have wf : unfinished.WellFormed :=
    (Store.reachable_afterAll (by decide +kernel)).wellFormed
  have wf' : finished.WellFormed := wf.turns (Store.turns_afterAll (by decide +kernel))
  have handle : unfinished.handle? page.id = some page := by decide +kernel
  have handle' : finished.handle? page.id = some page := by decide +kernel
  have miss : c.cache.contains (.of bob page) = false := by decide +kernel
  have miss' : c.cache.contains (.of both page) = false := by decide +kernel
  have ⟨_, _, malformed, forgets, _⟩ :=
    Collector.entries_complete (t := .initial) (r := .initial) wf handle miss
  have ⟨_, _, _, _, complete⟩ :=
    Collector.entries_complete (t := .initial) (r := .initial) wf' handle' miss'
  have fails : ((Collector.entries (unfinished.view .initial) .initial bob page).run.run c).1 =
      .error (.invalidEntry (.missingProperty "/rep:policy/allow" "rep:privileges")) := by
    decide +kernel
  have ⟨x, _, bad⟩ := malformed.1 ⟨_, fails⟩
  have ⟨es, collected, listed⟩ := map_eq_ok_iff.1 <| show
      List.map (fun e => (e.principal, e.owner.path)) <$>
        ((Collector.entries (finished.view .initial) .initial both page).run.run c).1 =
          .ok [("bob", "/"), ("alice", "/page"), ("alice", "/")] by decide +kernel
  exact ⟨wf, handle, miss, ⟨x.1, bad⟩, congrArg (·.cache.entries) (forgets _ fails), wf', handle',
    miss', es, collected, listed, (complete es collected).2.1⟩

end PolicyTree
