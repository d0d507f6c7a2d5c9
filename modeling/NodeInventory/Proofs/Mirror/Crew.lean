import NodeInventory.Proofs.Mirror.Scene
import NodeInventory.Proofs.Mirror.Upkeep

/-!
# Programs that have names to themselves

In a stage of a pass several programs go on at once: the batch of a job, or the tasks that workers
have taken and those that wait in the queue. Each of them serves some names (`Serves`): it asks for
nodes, and then works off a batch of which every item takes care of one name. No name is served by
two, so what a program does leaves the views of all names that others serve (`Serves.step`), and in
the end every name that was to be served has come to its goal (`inevitable_stage`), whoever goes on
when.

A program that is done gives up its names, which stay at their goals from then on (`Manned`). Less
and less is left to do, as in a drain.
-/

namespace NodeInventory

open Simulation Relation

namespace Mirror

open Pass

variable {d : Duties} {goal : String → View → Prop} {home w w' : World} {g g' : Registry}
  {chores before after : List Chore} {names : List String} {n : String} {r : Request}
  {a : r.Answer} {agent : ℕ} {x y : Program (Result Unit)} {views views' : String → View}

/-! ## Items -/

/-- Every item, left alone with its name, brings the view of the name to its goal. -/
def Devoted (goal : String → View → Prop) (home : World) (views : String → View)
    (chores : List Chore) : Prop :=
  ∀ c ∈ chores, c.2.Meets (watch (home.podsOn c.1) c.1) (fun t _ ↦ goal c.1 t) (views c.1)

theorem Devoted.of_eq (h : Devoted goal home views chores)
    (hviews : ∀ c ∈ chores, views' c.1 = views c.1) : Devoted goal home views' chores := by
  intro c hc
  rw [hviews c hc]
  exact h c hc

/-- An item that goes on takes care of its name, and leaves those of the others to them. -/
theorem Devoted.step {go : r.Answer → Action (Result Unit)}
    (h : Devoted goal home (view w g) (before ++ (n, .ask r go) :: after))
    (hnodup : ((before ++ (n, .ask r go) :: after).map (·.1)).Nodup)
    (hhome : Tended False Set.univ home w) (hw : Gives agent w r a w')
    (hg : g.Hears False r a g') :
    Devoted goal home (view w' g') (before ++ (n, go a) :: after) ∧
      Tended False Set.univ w w' ∧ w'.coordination = w.coordination ∧
        ∀ m ≠ n, view w' g' m = view w g m := by
  have hchore : (Action.ask r go).Meets (watch (home.podsOn n) n) (fun t _ ↦ goal n t)
      (view w g n) := h (n, .ask r go) (by simp)
  obtain ⟨hanswer, htended, hcoordination, hothers⟩ := told hchore.1 (hhome.podsOn n) hw hg
  refine ⟨fun c hc ↦ ?_, htended.mono (Set.subset_univ _), hcoordination, hothers⟩
  simp only [List.map_append, List.map_cons, List.nodup_append, List.nodup_cons, List.mem_map,
    List.mem_cons] at hnodup
  rw [List.mem_append, List.mem_cons] at hc
  rcases hc with hc | rfl | hc
  · rw [hothers c.1 fun hn ↦ hnodup.2.2 c.1 ⟨c, hc, rfl⟩ n (.inl rfl) hn]
    exact h c (by simp [hc])
  · exact hchore.2 a _ hanswer
  · rw [hothers c.1 fun hn ↦ hnodup.2.1.1 ⟨c, hc, hn⟩]
    exact h c (by simp [hc])

theorem Devoted.goal_of_done (h : Devoted goal home views chores) {results : List (Result Unit)}
    (hdone : chores.map (·.2) = results.map .done) : ∀ c ∈ chores, goal c.1 (views c.1) := by
  intro c hc
  have hmem : c.2 ∈ results.map Action.done := hdone ▸ List.mem_map_of_mem hc
  obtain ⟨result, -, hresult⟩ := List.mem_map.mp hmem
  have hmeets := h c hc
  rw [← hresult] at hmeets
  exact hmeets

/-! ## Programs -/

/-- A batch of which every item takes care of one of the names, and after which nothing is left to
ask. -/
def Parcels (goal : String → View → Prop) (home : World) (views : String → View)
    (x : Program (Result Unit)) (names : List String) : Prop :=
  ∃ k chores next, x = .batch k (List.map (·.2) chores) next ∧
    (∀ results, ∃ v, next results = .done v) ∧ Devoted goal home views chores ∧
      (chores.map (·.1)).Perm names

/-- A program that has the names to itself and brings them to their goals. -/
inductive Serves (goal : String → View → Prop) (home : World) (views : String → View) :
    Program (Result Unit) → List String → Prop
  | done {result : Result Unit} {names : List String} (h : ∀ n ∈ names, goal n (views n)) :
    Serves goal home views (.done result) names
  | ask {asked names : List String} {next : Result (List Node) → Program (Result Unit)}
      (h : ∀ nodes : List Node, nodes.Perm (asked.filterMap home.nodes.get?) →
        Parcels goal home views (next (.ok nodes)) names) :
    Serves goal home views (.ask (.findNodes asked) next) names
  | batch {x : Program (Result Unit)} {names : List String} (h : Parcels goal home views x names) :
    Serves goal home views x names

theorem parcels_joined {f : String → Action (Result Unit)} (k : Int)
    (h : ∀ n ∈ names, (f n).Meets (watch (home.podsOn n) n) (fun t _ ↦ goal n t) (views n)) :
    Parcels goal home views (Program.joined k (names.map f)) names := by
  refine ⟨k, names.map fun n ↦ (n, f n), fun results ↦ .done (Failure.join results), ?_,
    fun results ↦ ⟨_, rfl⟩, fun c hc ↦ ?_, ?_⟩
  · rw [List.map_map]
    rfl
  · obtain ⟨n, hn, rfl⟩ := List.mem_map.mp hc
    exact h n hn
  · rw [List.map_map]
    exact .of_eq (List.map_id names)

theorem Parcels.of_eq (h : Parcels goal home views x names)
    (hviews : ∀ n ∈ names, views' n = views n) : Parcels goal home views' x names := by
  obtain ⟨k, chores, next, rfl, hend, hchores, hnames⟩ := h
  refine ⟨k, chores, next, rfl, hend, hchores.of_eq fun c hc ↦ hviews c.1 ?_, hnames⟩
  exact hnames.mem_iff.mp (List.mem_map_of_mem hc)

theorem Serves.of_eq (h : Serves goal home views x names)
    (hviews : ∀ n ∈ names, views' n = views n) : Serves goal home views' x names := by
  cases h with
  | done h =>
    refine .done fun n hn ↦ ?_
    rw [hviews n hn]
    exact h n hn
  | ask h => exact .ask fun nodes hnodes ↦ (h nodes hnodes).of_eq hviews
  | batch h => exact .batch (h.of_eq hviews)

theorem cutExpand_begun {worker : Worker} (h : Parcels goal home views x names) :
    CutExpand Load.Less (clerkLoad ⟨worker, some x⟩) {.begun} := by
  obtain ⟨k, chores, next, rfl, -⟩ := h
  refine cutExpand_singleton fun l hl ↦ ?_
  rcases Multiset.mem_add.mp hl with hl | hl
  · rw [Multiset.mem_singleton.mp hl]
    exact .started
  · obtain ⟨z, rfl⟩ := exists_item_of_mem_sum hl
    exact .item z

/-- A program that goes on serves its names as before, leaves those of the others to them, and comes
closer to its end. -/
theorem Serves.step (worker : Worker) (h : Serves goal home (view w g) x names)
    (hnodup : names.Nodup) (hhome : Tended False Set.univ home w) (hx : x.Step r a y)
    (hw : Gives agent w r a w') (hg : g.Hears False r a g') :
    Serves goal home (view w' g') y names ∧ Tended False Set.univ w w' ∧
      w'.coordination = w.coordination ∧ (∀ n ∉ names, view w' g' n = view w g n) ∧
        CutExpand Load.Less (clerkLoad ⟨worker, some y⟩) (clerkLoad ⟨worker, some x⟩) := by
  cases h with
  | done => cases hx
  | @ask asked _ next h =>
    cases hx with
    | ask =>
      obtain ⟨nodes, rfl, hnodes, rfl⟩ := hw.of_findNodes
      rw [hhome.nodes] at hnodes
      obtain rfl : g = g' := (hg.eq_of_kind (by simp [Request.kind])).symm
      have hsame : ∀ n, view (w.note agent (.findNodes asked)) g n = view w g n := fun n ↦ rfl
      have hparcels := h nodes hnodes
      refine ⟨.batch (hparcels.of_eq fun n _ ↦ hsame n), (Still.note w agent rfl).tended, rfl,
        fun n _ ↦ hsame n, ?_⟩
      exact cutExpand_begun hparcels
  | batch h =>
    obtain ⟨k, chores, next, rfl, hend, hchores, hnames⟩ := h
    obtain ⟨xs, go, ys, hitems, rfl⟩ := Program.exists_item_of_step hend hx
    obtain ⟨before, n, after, rfl, rfl, rfl⟩ := exists_of_map_snd_eq hitems
    obtain ⟨hchores', htended, hcoordination, hothers⟩ :=
      hchores.step (hnames.nodup_iff.mpr hnodup) hhome hw hg
    have hmap : (before ++ (n, go a) :: after).map (·.2) =
        before.map (·.2) ++ go a :: after.map (·.2) := by simp
    refine ⟨?_, htended, hcoordination, fun m hm ↦ hothers m ?_, ?_⟩
    · rw [← hmap]
      exact .batch ⟨k, _, next, rfl, hend, hchores', by simpa using hnames⟩
    · rintro rfl
      exact hm (hnames.mem_iff.mp (by simp))
    · rw [hitems]
      exact (cutExpand_add_left _).mpr (cutExpand_sum (cutExpand_itemLoad go a) _ _)

theorem Serves.goal_of_ended {result : Result Unit} (h : Serves goal home views x names)
    (hx : x.Ended result) : ∀ n ∈ names, goal n (views n) := by
  cases h with
  | done h => exact h
  | ask => cases hx
  | batch h =>
    obtain ⟨k, chores, next, rfl, -, hchores, hnames⟩ := h
    obtain ⟨results, hdone⟩ := Program.exists_results_of_ended hx
    intro n hn
    obtain ⟨c, hc, rfl⟩ := List.mem_map.mp (hnames.mem_iff.mpr hn)
    exact hchores.goal_of_done hdone c hc

/-! ## Several programs -/

/-- A program, with the names that it has to itself. -/
abbrev Post : Type 1 := Program (Result Unit) × List String

/-- Programs that have all names to themselves which have not come to their goals. Other views are
as they were at the start. -/
structure Manned (goal : String → View → Prop) (home : World) (start : String → View)
    (names : List String) (w : World) (g : Registry) (programs : List (Program (Result Unit))) :
    Prop where
  tended : Tended False Set.univ home w
  others : ∀ n ∉ names, view w g n = start n
  served : ∃ (posts : List Post) (free : List String),
    programs.Perm (posts.map (·.1)) ∧ (free ++ posts.flatMap (·.2)).Perm names ∧
      (∀ q ∈ posts, Serves goal home (view w g) q.1 q.2) ∧ ∀ n ∈ free, goal n (view w g n)

namespace Manned

variable {start : String → View} {programs others : List (Program (Result Unit))}

/-- The names that one of the programs serves are none of those that the others serve. -/
theorem exists_post (h : Manned goal home start names w g programs)
    (hprograms : programs.Perm (x :: others)) :
    ∃ (held : List String) (posts : List Post) (free : List String),
      others.Perm (posts.map (·.1)) ∧
      (held ++ (free ++ posts.flatMap (·.2))).Perm names ∧ Serves goal home (view w g) x held ∧
        (∀ q ∈ posts, Serves goal home (view w g) q.1 q.2) ∧ ∀ n ∈ free, goal n (view w g n) := by
  obtain ⟨posts, free, hposts, hnames, hserves, hfree⟩ := h.served
  have hperm := hprograms.symm.trans hposts
  obtain ⟨⟨x, held⟩, hmem, rfl⟩ := List.mem_map.mp (hperm.mem_iff.mp List.mem_cons_self)
  obtain ⟨before, after, rfl⟩ := List.append_of_mem hmem
  refine ⟨held, before ++ after, free, ?_, ?_, hserves _ hmem, fun q hq ↦ hserves q ?_, hfree⟩
  · rw [List.map_append, List.map_cons] at hperm
    rw [List.map_append]
    exact (hperm.trans List.perm_middle).cons_inv
  · refine List.Perm.trans ?_ hnames
    rw [List.perm_iff_count]
    intro n
    simp only [List.flatMap_append, List.flatMap_cons, List.count_append]
    omega
  · rcases List.mem_append.mp hq with hq | hq <;> simp [hq]

/-- One of the programs goes on. -/
theorem step (worker : Worker) (h : Manned goal home start names w g programs)
    (hprograms : programs.Perm (x :: others)) (hnodup : names.Nodup) (hx : x.Step r a y)
    (hw : Gives agent w r a w') (hg : g.Hears False r a g') :
    Manned goal home start names w' g' (y :: others) ∧ w'.coordination = w.coordination ∧
      CutExpand Load.Less (clerkLoad ⟨worker, some y⟩) (clerkLoad ⟨worker, some x⟩) := by
  obtain ⟨held, posts, free, hposts, hnames, hheld, hserves, hfree⟩ := h.exists_post hprograms
  have hdisjoint := List.nodup_append.mp (hnames.nodup_iff.mpr hnodup)
  obtain ⟨hheld', htended, hcoordination, hothers, hless⟩ :=
    hheld.step worker hdisjoint.1 h.tended hx hw hg
  -- what others serve, or have served, is not touched
  have hkept : ∀ n ∈ free ++ posts.flatMap (·.2), view w' g' n = view w g n := fun n hn ↦
    hothers n fun hown ↦ hdisjoint.2.2 n hown n hn rfl
  refine ⟨⟨h.tended.trans htended, fun n hn ↦ ?_, (y, held) :: posts, free, hposts.cons y, ?_,
    fun q hq ↦ ?_, fun n hn ↦ ?_⟩, hcoordination, hless⟩
  · rw [hothers n fun hown ↦ hn (hnames.mem_iff.mp (List.mem_append_left _ hown))]
    exact h.others n hn
  · refine List.Perm.trans ?_ hnames
    rw [List.perm_iff_count]
    intro n
    simp only [List.flatMap_cons, List.count_append]
    omega
  · rcases List.mem_cons.mp hq with rfl | hq
    · exact hheld'
    · refine (hserves q hq).of_eq fun n hn ↦ hkept n (List.mem_append_right _ ?_)
      exact List.mem_flatMap.mpr ⟨q, hq, hn⟩
  · rw [hkept n (List.mem_append_left _ hn)]
    exact hfree n hn

theorem release {result : Result Unit} (h : Manned goal home start names w g programs)
    (hprograms : programs.Perm (x :: others)) (hx : x.Ended result) :
    Manned goal home start names w g others := by
  obtain ⟨held, posts, free, hposts, hnames, hheld, hserves, hfree⟩ := h.exists_post hprograms
  refine ⟨h.tended, h.others, posts, held ++ free, hposts, ?_, hserves, fun n hn ↦ ?_⟩
  · rw [List.append_assoc]
    exact hnames
  · rcases List.mem_append.mp hn with hn | hn
    · exact hheld.goal_of_ended hx n hn
    · exact hfree n hn

theorem perm (h : Manned goal home start names w g programs) (hprograms : others.Perm programs) :
    Manned goal home start names w g others := by
  obtain ⟨posts, free, hposts, hrest⟩ := h.served
  exact ⟨h.tended, h.others, posts, free, hprograms.trans hposts, hrest⟩

theorem of_view (h : Manned goal home start names w g programs)
    (hw : Tended False Set.univ w w') (hviews : ∀ n, view w' g n = view w g n) :
    Manned goal home start names w' g programs := by
  obtain ⟨posts, free, hposts, hnames, hserves, hfree⟩ := h.served
  refine ⟨h.tended.trans hw, fun n hn ↦ (hviews n).trans (h.others n hn), posts, free, hposts,
    hnames, fun q hq ↦ (hserves q hq).of_eq fun n _ ↦ hviews n, fun n hn ↦ ?_⟩
  rw [hviews]
  exact hfree n hn

theorem goal_of_nil (h : Manned goal home start names w g []) :
    ∀ n ∈ names, goal n (view w g n) := by
  obtain ⟨posts, free, hposts, hnames, -, hfree⟩ := h.served
  obtain rfl : posts = [] := List.map_eq_nil_iff.mp hposts.nil_eq.symm
  intro n hn
  refine hfree n ?_
  simpa using hnames.mem_iff.mpr hn

end Manned

/-! ## Stages -/

variable {start : String → View} {stage : Stage} {rest : List Stage} {p : Scene → Prop}

/-- The programs that go on in a stage, and those that wait in the queue to be begun. -/
def programs (d : Duties) (w : World) : Stage → List (Program (Result Unit))
  | .job x => [x]
  | .drain clerks =>
    clerks.filterMap (·.work) ++ (w.queued d.queue).map (Task.dispatch d.handlers)

/-- What is left to do in a stage. -/
def stageLoad (d : Duties) (w : World) : Stage → Multiset Load
  | .job x => clerkLoad ⟨.waiting, some x⟩
  | .drain clerks =>
    (clerks.map clerkLoad).sum + Multiset.replicate (w.queued d.queue).length .queued

/-- If the queue is to be worked off, there are workers for it, each of whom waits or has a task. -/
def Staffed : Stage → Prop
  | .job _ => True
  | .drain clerks =>
    clerks ≠ [] ∧ ∀ clerk ∈ clerks, clerk = {} ∨ ∃ raw x, clerk = ⟨.handling raw, some x⟩

/-- A stage in which programs have all names to themselves that have not come to their goals. -/
structure Underway (d : Duties) (goal : String → View → Prop) (home : World)
    (start : String → View) (names : List String) (w : World) (g : Registry) (stage : Stage) :
    Prop where
  staffed : Staffed stage
  manned : Manned goal home start names w g (programs d w stage)

/-- To replace one worker by another of whom less is left to do leaves less to do. -/
theorem cutExpand_drain {before after : List Clerk} {clerk clerk' : Clerk}
    (hqueued : w'.queued d.queue = w.queued d.queue)
    (h : CutExpand Load.Less (clerkLoad clerk') (clerkLoad clerk)) :
    CutExpand Load.Less (stageLoad d w' (.drain (before ++ clerk' :: after)))
      (stageLoad d w (.drain (before ++ clerk :: after))) := by
  rw [stageLoad, stageLoad, hqueued]
  exact (cutExpand_add_right _).mpr (cutExpand_sum h before after)

theorem perm_programs_drain {before after : List Clerk} {worker : Worker} :
    (programs d w (.drain (before ++ ⟨worker, some x⟩ :: after))).Perm
      (x :: programs d w (.drain (before ++ after))) := by
  simp only [programs, List.filterMap_append, List.filterMap_cons, List.append_assoc,
    List.cons_append]
  exact List.perm_middle

theorem clerkLoad_taken {worker : Worker} (raw : String) :
    clerkLoad ⟨worker, some (Task.dispatch d.handlers raw)⟩ = {.begun} := by
  rw [clerkLoad, Task.dispatch]
  cases Task.decode d.handlers.wording raw with
  | error f => rfl
  | ok task => cases task with
    | nodeBatch names => rfl

theorem Staffed.replace {before after : List Clerk} {clerk clerk' : Clerk}
    (h : Staffed (.drain (before ++ clerk :: after)))
    (hclerk' : clerk' = {} ∨ ∃ raw x, clerk' = ⟨.handling raw, some x⟩) :
    Staffed (.drain (before ++ clerk' :: after)) := by
  refine ⟨by simp, fun c hc ↦ ?_⟩
  rw [List.mem_append, List.mem_cons] at hc
  rcases hc with hc | rfl | hc
  · exact h.2 c (by simp [hc])
  · exact hclerk'
  · exact h.2 c (by simp [hc])

theorem Staffed.exists_raw {before after : List Clerk} {worker : Worker}
    (h : Staffed (.drain (before ++ ⟨worker, some x⟩ :: after))) :
    ∃ raw, worker = .handling raw := by
  obtain hidle | ⟨raw, y, hbusy⟩ := h.2 ⟨worker, some x⟩ (by simp)
  · cases hidle
  · cases hbusy
    exact ⟨raw, rfl⟩

/-- Who asks in a stage does so for a program that goes on, and leaves less to do. -/
theorem Underway.asks {stages' : List Stage} (h : Underway d goal home start names w g stage)
    (hnodup : names.Nodup) (hasks : Asks (stage :: rest) agent r a stages')
    (hw : Gives agent w r a w') (hg : g.Hears False r a g') :
    ∃ stage', stages' = stage' :: rest ∧ Underway d goal home start names w' g' stage' ∧
      CutExpand Load.Less (stageLoad d w' stage') (stageLoad d w stage) := by
  cases hasks with
  | @job x y _ _ _ hx =>
    obtain ⟨hmanned, -, hless⟩ := h.manned.step .waiting (.refl [x]) hnodup hx hw hg
    exact ⟨.job y, rfl, ⟨trivial, hmanned⟩, hless⟩
  | @clerk x y _ _ before after worker _ hx =>
    obtain ⟨hmanned, hcoordination, hless⟩ :=
      h.manned.step worker perm_programs_drain hnodup hx hw hg
    have hqueued : w'.queued d.queue = w.queued d.queue := by
      rw [World.queued, hcoordination]
      rfl
    obtain ⟨raw, rfl⟩ := h.staffed.exists_raw
    refine ⟨_, rfl, ⟨h.staffed.replace (.inr ⟨raw, y, rfl⟩), ?_⟩, cutExpand_drain hqueued hless⟩
    have hsame : programs d w' (.drain (before ++ after)) =
        programs d w (.drain (before ++ after)) := by
      rw [programs, programs, hqueued]
    refine hmanned.perm ?_
    rw [← hsame]
    exact perm_programs_drain

/-- What else happens in a stage leaves the names to the programs that have them, and less to do; or
the stage is over, and all names have come to their goals. -/
theorem Underway.turns {stages' : List Stage} (h : Underway d goal home start names w g stage)
    (hturns : Turns d w (stage :: rest) w' stages') :
    (∃ stage', stages' = stage' :: rest ∧ Underway d goal home start names w' g stage' ∧
      CutExpand Load.Less (stageLoad d w' stage') (stageLoad d w stage)) ∨
    (stages' = rest ∧ w' = w ∧ ∀ n ∈ names, goal n (view w g n)) := by
  cases hturns with
  | ended hx => exact .inr ⟨rfl, rfl, (h.manned.release (.refl _) hx).goal_of_nil⟩
  | @took coordination raw before after clerk worker notes _ hpop hworker =>
    have hlist : w.queued d.queue = raw :: coordination.list d.queue := KeyStore.list_of_pop? hpop
    -- only a worker that waits takes a task
    obtain rfl | ⟨raw', x, rfl⟩ := h.staffed.2 clerk (by simp)
    · cases hworker
      refine .inl ⟨_, rfl, ⟨h.staffed.replace (.inr ⟨raw, _, rfl⟩), ?_⟩, ?_⟩
      · refine (h.manned.of_view (.coordination w coordination) fun n ↦ rfl).perm ?_
        have hwaiting : programs d w (.drain (before ++ {} :: after)) =
            (before ++ after).filterMap (·.work) ++ Task.dispatch d.handlers raw ::
              (coordination.list d.queue).map (Task.dispatch d.handlers) := by
          simp [programs, hlist]
        rw [hwaiting]
        exact perm_programs_drain.trans List.perm_middle.symm
      · refine ⟨{.begun}, .queued, fun l hl ↦ ?_, ?_⟩
        · rw [Multiset.mem_singleton.mp hl]
          exact .begun
        · have hleft : World.queued { w with coordination } d.queue =
              coordination.list d.queue := rfl
          have hidle : clerkLoad {} = 0 := rfl
          simp only [stageLoad, Pool.noteAll, List.foldl_nil, hlist, hleft, hidle,
            List.length_cons, Multiset.replicate_succ, List.map_append, List.map_cons,
            List.sum_append, List.sum_cons, clerkLoad_taken, ← Multiset.singleton_add]
          abel
    · cases hworker
  | @finished x result before after worker worker' notes _ hx hworker =>
    obtain rfl : worker' = .waiting := Worker.eq_waiting_of_handled hworker
    have hstill := still_noteAll before.length (Worker.isChange_of_step hworker) w
    have hqueued : World.queued (Pool.noteAll before.length notes w) d.queue =
        w.queued d.queue := by
      rw [World.queued, hstill.coordination]
      rfl
    refine .inl ⟨_, rfl, ⟨h.staffed.replace (.inl rfl), ?_⟩,
      cutExpand_drain hqueued (cutExpand_of_ended hx)⟩
    have hmanned := (h.manned.release perm_programs_drain hx).of_view hstill.tended fun n ↦ by
      rw [view, hstill.record?]
      rfl
    have hsame : programs d (Pool.noteAll before.length notes w) (.drain (before ++ {} :: after)) =
        programs d w (.drain (before ++ after)) := by
      simp [programs, hqueued]
    rwa [hsame]
  | @drained clerks _ hqueue hidle =>
    have hnone : programs d w (.drain clerks) = [] := by
      rw [programs, hqueue, List.map_nil, List.append_nil, List.filterMap_eq_nil_iff]
      intro clerk hclerk
      rw [hidle clerk hclerk]
    have hmanned := h.manned
    rw [hnone] at hmanned
    exact .inr ⟨rfl, rfl, hmanned.goal_of_nil⟩

theorem Underway.exists_step (h : Underway d goal home start names w g stage) :
    ∃ t, Step d False ⟨w, g, stage :: rest⟩ t := by
  refine Mirror.exists_step ?_
  cases stage with
  | job x =>
    obtain ⟨result, hended⟩ | ⟨r, hasks⟩ := Program.ended_or_asks x
    · exact ⟨_, .ended hended⟩
    · obtain ⟨y, hy⟩ := hasks _
      exact ⟨_, .asked hy (.answered r)⟩
  | drain clerks => exact exists_step_of_clerks h.staffed.1 h.staffed.2

/-- A stage comes to its end with all names at their goals, whoever goes on when. -/
theorem inevitable_stage (h : Underway d goal home start names w g stage) (hnodup : names.Nodup)
    (hp : ∀ w' g', Tended False Set.univ home w' → (∀ n ∉ names, view w' g' n = start n) →
      (∀ n ∈ names, goal n (view w' g' n)) → Inevitable (Step d False) p ⟨w', g', rest⟩) :
    Inevitable (Step d False) p ⟨w, g, stage :: rest⟩ := by
  obtain ⟨load, hload⟩ : ∃ load, load = stageLoad d w stage := ⟨_, rfl⟩
  induction load using Load.wellFounded_less.cutExpand.induction generalizing w g stage with
  | _ load ih =>
    refine .later h.exists_step fun t ht ↦ ?_
    cases ht with
    | told hasks hw hg =>
      obtain ⟨stage', rfl, h', hless⟩ := h.asks hnodup hasks hw hg
      exact ih _ (hload ▸ hless) h' rfl
    | turned hturns =>
      obtain ⟨stage', rfl, h', hless⟩ | ⟨rfl, rfl, hgoal⟩ := h.turns hturns
      · exact ih _ (hload ▸ hless) h' rfl
      · exact hp _ g h.manned.tended h.manned.others hgoal

/-- A job that serves some names comes to its end with these names at their goals. -/
theorem inevitable_job (goal : String → View → Prop) (names : List String) (hnodup : names.Nodup)
    (hx : Serves goal w (view w g) x names)
    (hp : ∀ w' g', Tended False Set.univ w w' → (∀ n ∉ names, view w' g' n = view w g n) →
      (∀ n ∈ names, goal n (view w' g' n)) → Inevitable (Step d False) p ⟨w', g', rest⟩) :
    Inevitable (Step d False) p ⟨w, g, .job x :: rest⟩ := by
  refine inevitable_stage ⟨trivial, .refl w, fun _ _ ↦ rfl, [(x, names)], [], .refl _, ?_, ?_, ?_⟩
    hnodup hp
  · simp
  · simpa using hx
  · exact fun n hn ↦ by cases hn

end Mirror

end NodeInventory
