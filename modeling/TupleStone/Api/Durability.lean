import TupleStone.Api.FileHistory

/-! # Durability

With synchronised commits a reopened database shows the user tables of the last acknowledged commit, or those of the one
commit that the last kill cut.
-/

set_option autoImplicit false

namespace TupleStone

open OpProgram

/-- The user tables of the last acknowledged commit, and those of a commit that a kill cut. -/
structure Promise where
  acknowledged : Tables
  cut : Option Tables

def Promise.allows (promise : Promise) : Set Tables := {found | found = promise.acknowledged ∨ promise.cut = some found}

/-- The user tables whose commit a call acknowledges. -/
def Process.acknowledged (p : Process) (act : Act) (response : Response) : Option Tables :=
  if response.toStatus = .ok then (p.committing act).map userTables else none

def Promise.after (promise : Promise) : Occurrence → Promise
  | .opened db => ⟨userTables db.tables, none⟩
  | .called p c response => ⟨(p.acknowledged (p.act c) response).getD promise.acknowledged, none⟩
  | .killedInside p c => ⟨promise.acknowledged, (p.committing (p.act c)).map userTables⟩
  | _ => promise

def promised (first : Tables) (events : List Occurrence) : Promise := events.foldl Promise.after ⟨first, none⟩

theorem promised_append (first : Tables) (events : List Occurrence) (e : Occurrence) :
    promised first (events ++ [e]) = (promised first events).after e := by
  rw [promised, List.foldl_append]
  rfl

/-- No statement changes the shared tables without a commit. -/
def Orderly (events : List Occurrence) : Prop := ∀ p c response, Occurrence.called p c response ∈ events → ¬ p.Strays (p.act c)

/-- What the files may yield is what is promised, and so is what an open database shares. -/
inductive Keeps (promise : Promise) (P : Set Tables) : Machine → Prop where
  | down {disk : Files.Disk FileId} (hAllows : P ⊆ promise.allows) : Keeps promise P (.down disk)
  | up {w : Files.World FileId} {p : Process} (hAcknowledged : P ⊆ {promise.acknowledged}) (hCut : promise.cut = none)
      (hShared : p.db.closed = false → userTables p.db.tables = promise.acknowledged) : Keeps promise P (.up w p)

variable {options : Options} {first : Files.Disk FileId} {db : Database} {w w' : Files.World FileId} {events : List Occurrence}
  {m : Machine} {promise : Promise} {P : Set Tables} {p p' : Process} {act : Act} {response : Response}

theorem Keeps.killed (h : Keeps promise P (.up w p)) (disk : Files.Disk FileId) : Keeps promise P (.down disk) := by
  cases h with
  | up hAcknowledged => exact .down fun found hFound => Or.inl (hAcknowledged hFound)

theorem Keeps.killedInside (h : Keeps promise P (.up w p)) (disk : Files.Disk FileId) :
    Keeps ⟨promise.acknowledged, (p.committing act).map userTables⟩ (p.during act P) (.down disk) := by
  cases h with
  | up hAcknowledged hCut hShared =>
    apply Keeps.down
    rintro found (hOld | hNew | ⟨-, hClosed, rfl⟩)
    · exact Or.inl (hAcknowledged hOld)
    · exact Or.inr hNew
    · exact Or.inl (hShared hClosed)

theorem Keeps.called (h : Keeps promise P (.up w p)) (hSync : p.db.options.syncOnCommit = true)
    (hServed : p.Served options w' act P response p')
    (hShared' : userTables p'.db.tables = ((p.committing act).map userTables).getD (userTables p.db.tables)) :
    Keeps ⟨(p.acknowledged act response).getD promise.acknowledged, none⟩ (p.after act response P) (.up w' p') := by
  cases h with
  | up hAcknowledged hCut hShared =>
    have hOpened := hServed.opened
    cases hCommits : p.committing act with
    | none =>
      have hNone : p.acknowledged act response = none := by
        rw [Process.acknowledged, hCommits]
        exact ite_self _
      rw [hNone, Process.after, hCommits]
      rw [hCommits] at hShared'
      refine .up ?_ rfl fun hNot => hShared'.trans (hShared (hOpened hNot).1)
      cases hClosed : p.db.closed with
      | true => exact hAcknowledged
      | false =>
        dsimp only
        rw [if_neg Bool.false_ne_true, hShared hClosed]
        split
        · exact subset_rfl
        split
        · exact Set.insert_subset rfl hAcknowledged
        · exact hAcknowledged
    | some tables =>
      rw [hCommits] at hShared' hOpened
      rw [Process.acknowledged, Process.after, hCommits]
      dsimp only
      split
      · refine .up ?_ rfl fun _ => hShared'
        rintro found (rfl | ⟨hNever, -⟩)
        · rfl
        · cases hSync.symm.trans hNever
      · rename_i hError
        refine .up hAcknowledged rfl fun hNot => ?_
        obtain ⟨-, hNone | hOk⟩ := hOpened hNot
        · cases hNone
        · exact absurd hOk hError

theorem History.keeps (hSync : options.syncOnCommit = true) (hFirst : opens options first = (.ok db, w))
    (h : History options first events m) (hOrderly : Orderly events) :
    Keeps (promised (userTables db.tables) events) (expected {userTables db.tables} events) m := by
  induction h with
  | start => exact .down fun found hFound => Or.inl hFound
  | opened h hOpen ih =>
    rw [promised_append, expected_append]
    exact .up subset_rfl rfl fun _ => rfl
  | @called events w w' p p' c response h hFits hCall ih =>
    have hBefore : Orderly events := fun p c response hMem => hOrderly p c response (List.mem_append_left _ hMem)
    have hKept := hOrderly p c response (List.mem_append_right _ (List.mem_singleton_self _))
    rw [promised_append, expected_append]
    cases h.sound hFirst with
    | up hServing hHolds =>
      have hServed := (hServing.serves hHolds c hFits).result
      rw [hCall] at hServed
      exact (ih hBefore).called (hServing.options_eq ▸ hSync) (hServed response p' rfl)
        (Process.shared_after (possible_of_run hCall) hKept)
  | killed h hDisk ih =>
    have hBefore : Orderly _ := fun p c response hMem => hOrderly p c response (List.mem_append_left _ hMem)
    rw [promised_append, expected_append]
    exact (ih hBefore).killed _
  | killedInside h hFits hVisit hDisk ih =>
    have hBefore : Orderly _ := fun p c response hMem => hOrderly p c response (List.mem_append_left _ hMem)
    rw [promised_append, expected_append]
    exact (ih hBefore).killedInside _
  | killedOpening h hVisit hDisk ih =>
    have hBefore : Orderly _ := fun p c response hMem => hOrderly p c response (List.mem_append_left _ hMem)
    rw [promised_append, expected_append]
    cases ih hBefore with
    | down hAllows => exact .down hAllows

/-- However often and wherever processes were killed, the next `Open` succeeds and shows the user tables of the last
acknowledged commit, or those of the commit that the last kill cut. -/
theorem killed_reopens (options : Options) (first disk : Files.Disk FileId) (db : Database) (w : Files.World FileId)
    (events : List Occurrence) (hSync : options.syncOnCommit = true) (hFirst : opens options first = (.ok db, w))
    (h : History options first events (.down disk)) (hOrderly : Orderly events) :
    ∃ db' w', opens options disk = (.ok db', w') ∧
      (userTables db'.tables = (promised (userTables db.tables) events).acknowledged ∨
        (promised (userTables db.tables) events).cut = some (userTables db'.tables)) := by
  obtain ⟨db', w', hOpen, hTables⟩ := (h.sound hFirst).opens
  cases h.keeps hSync hFirst hOrderly with
  | down hAllows => exact ⟨db', w', hOpen, hAllows hTables⟩

theorem within_tablesWithT : Within .loader tablesWithT := by
  constructor
  · decide +kernel
  · decide +kernel
  · decide +kernel

theorem fits_createTable : fresh.Fits (fresh.act (.execute 0 createTableT)) := by
  constructor
  · intro tables hCommit
    cases committing_fresh.symm.trans hCommit
    exact ⟨by decide +kernel, within_tablesWithT⟩
  · rw [act_fresh]
    rintro (h | h) <;> cases h

def unconnected : Process := { db := freshDatabase }

theorem fits_connect : unconnected.Fits (unconnected.act .connect) := by
  constructor
  · intro tables hCommit
    cases hCommit
  · rintro (h | h) <;> cases h

theorem opens_nothing : opens {} (fun _ => none) = (.ok freshDatabase, (opens {} (fun _ => none)).2) := Prod.ext opens_fresh rfl

theorem history_connected : History {} (fun _ => none) [.opened freshDatabase, .called unconnected .connect (.connection 0)]
    (.up (opens {} (fun _ => none)).2 fresh) := by
  have hCall : run Files.handler (unconnected.call .connect) (opens {} (fun _ => none)).2 =
      (.done (.connection 0, fresh), (opens {} (fun _ => none)).2) := rfl
  exact (History.start.opened opens_nothing).called fits_connect hCall

/-- A process creates its files, connects and is killed at the end of CREATE TABLE, before that call returns. -/
theorem history_createTable : History {} (fun _ => none)
    [.opened freshDatabase, .called unconnected .connect (.connection 0), .killedInside fresh (.execute 0 createTableT)]
    (.down (Files.toDisk (run Files.handler (fresh.call (.execute 0 createTableT)) (opens {} (fun _ => none)).2).2)) := by
  exact history_connected.killedInside fits_createTable (run_mem_visits _ _ _) (Files.survives_toDisk _)

theorem promised_createTable : promised (userTables freshDatabase.tables)
    [.opened freshDatabase, .called unconnected .connect (.connection 0), .killedInside fresh (.execute 0 createTableT)] =
      ⟨OrderedMap.empty, some (userTables tablesWithT)⟩ := by
  have hConnect : unconnected.acknowledged (unconnected.act .connect) (.connection 0) = none := if_pos rfl
  simp only [promised, List.foldl_cons, List.foldl_nil, Promise.after]
  rw [committing_fresh, hConnect]
  rfl

theorem killed_reopens_sample : ∃ (disk : Files.Disk FileId) (db : Database) (w : Files.World FileId),
    opens {} disk = (.ok db, w) ∧ (userTables db.tables = OrderedMap.empty ∨ userTables db.tables = userTables tablesWithT) := by
  have hOrderly : Orderly [.opened freshDatabase, .called unconnected .connect (.connection 0),
      .killedInside fresh (.execute 0 createTableT)] := by
    intro p c response hMem
    rcases hMem with _ | ⟨_, _ | ⟨_, _ | ⟨_, hMem⟩⟩⟩
    · rintro ⟨id, stmt, hAct, -⟩
      cases hAct
    · cases hMem
  obtain ⟨db, w, hOpen, hShows⟩ := killed_reopens {} _ _ _ _ _ rfl opens_nothing history_createTable hOrderly
  rw [promised_createTable] at hShows
  exact ⟨_, db, w, hOpen, hShows.imp_right fun hNew => (Option.some.inj hNew).symm⟩

end TupleStone
