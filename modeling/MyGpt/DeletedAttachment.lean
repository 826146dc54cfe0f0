import MyGpt.AttachmentLife
/-!
# DeletedAttachment — when a deleted attachment stays deleted

Which steps undo a deletion, step by step exactly, and what holds of the runs without them.
-/
namespace MyGpt
namespace Attachment

open Trace
open Chat (Text)

/-! ## what is promised -/

def State.status (s : State) : Option Status := s.row.map (·.status)

def Parse.Ends : Parse → Prop
  | .idle => True
  | .done => True
  | _ => False

def Delete.Ends : Delete → Prop
  | .idle => True
  | .done => True
  | _ => False

def State.Quiet (s : State) : Prop := (∀ t, (s.parses t).Ends) ∧ ∀ d, (s.deletes d).Ends

structure StaysDeleted (s : State) : Prop where
  status : s.deleted = true → s.status = some .deleted
  listed : s.listed = false
  prompted : s.prompted = false
  index : s.deleted = true → s.Quiet → s.points = 0

/-! ## the condition -/

def State.Alive (s : State) : Prop := s.status ≠ some .deleted

/-- A parse commits a status and adds points only while the attachment is not deleted, a deletion commits on an empty index, and
no turn asks for the text of a deleted attachment. -/
def StepOk (s : State) : Act → Prop
  | .commitsParsing t => ∀ status parseStatus, s.parses t = .loaded status parseStatus → status ≠ .parsing → s.Alive
  | .commitsFailed _ => s.Alive
  | .commitsReady _ => s.Alive
  | .upserts _ => s.Alive
  | .commitsDeleted _ => s.row.isSome → s.points = 0
  | .asksText => ∀ row, s.row = some row → row.status = .deleted → row.isImage = true ∨ row.hasText = false
  | _ => True

/-! ## the invariant -/

structure Inv (s : State) : Prop where
  status : s.deleted = true ↔ s.status = some .deleted
  listed : s.listed = false
  prompted : s.prompted = false
  index : s.deleted = true → s.points = 0

theorem inv_start : Inv .start := ⟨⟨(fun h => by cases h), fun h => by cases h⟩, rfl, rfl, fun _ => rfl⟩

theorem deleted_row {s : State} {row : Row} (h : Inv s) (hd : s.deleted = true) (hr : s.row = some row) : row.status = .deleted := by
  have := h.status.1 hd
  unfold State.status at this
  rw [hr] at this
  exact Option.some.inj this

theorem staysDeleted_of_inv {s : State} (h : Inv s) : StaysDeleted s :=
  ⟨h.status.1, h.listed, h.prompted, fun hd _ => h.index hd⟩

structure Keeps (s s' : State) : Prop where
  status : s'.status = s.status
  deleted : s'.deleted = s.deleted
  listed : s'.listed = s.listed
  prompted : s'.prompted = s.prompted
  points : s'.points = s.points ∨ s'.points = 0

theorem inv_of_keeps {s s' : State} (h : Inv s) (hk : Keeps s s') : Inv s' := by
  refine ⟨?_, hk.listed.trans h.listed, hk.prompted.trans h.prompted, fun hd => ?_⟩
  · rw [hk.deleted, hk.status]
    exact h.status
  · rw [hk.deleted] at hd
    obtain hp | hp := hk.points
    · exact hp.trans (h.index hd)
    · exact hp

/-- The status is overwritten with another one than `deleted`. -/
structure Writes (s s' : State) : Prop where
  status : ∃ status, status ≠ .deleted ∧ s'.status = s.row.map (fun _ => status)
  deleted : s'.deleted = s.deleted
  listed : s'.listed = s.listed
  prompted : s'.prompted = s.prompted
  points : s'.points = s.points

theorem inv_writes_iff {s s' : State} (h : Inv s) (hw : Writes s s') : Inv s' ↔ s.Alive := by
  obtain ⟨status, hne, hs⟩ := hw.status
  have hnew : s'.status ≠ some .deleted := by
    rw [hs]
    cases s.row with
    | none => exact fun h => by cases h
    | some row => exact fun heq => hne (Option.some.inj heq)
  refine ⟨fun h' hdel => ?_, fun halive => ?_⟩
  · exact hnew (h'.status.1 (hw.deleted.trans (h.status.2 hdel)))
  · have hd : s'.deleted ≠ true := fun hd => halive (h.status.1 (hw.deleted.symm.trans hd))
    exact ⟨⟨fun hd' => absurd hd' hd, fun heq => absurd heq hnew⟩, hw.listed.trans h.listed, hw.prompted.trans h.prompted,
      fun hd' => absurd hd' hd⟩

/-! ## one step -/

theorem status_write {s : State} {f : Row → Row} (hf : ∀ row, (f row).status = row.status) : (s.write f).status = s.status := by
  unfold State.status State.write
  cases s.row with
  | none => rfl
  | some row => exact congrArg some (hf row)

theorem keeps_spawn {s s' : State} {t : Nat} (h : spawn s t = some s') : Keeps s s' := by
  unfold spawn at h
  split at h
  · cases h
    exact ⟨rfl, rfl, rfl, rfl, .inl rfl⟩
  · cases h

theorem iff_of_keeps {s s' : State} {a : Act} (h : Inv s) (hk : Keeps s s') (hok : StepOk s a) : Inv s' ↔ StepOk s a :=
  ⟨fun _ => hok, fun _ => inv_of_keeps h hk⟩

theorem parseStep_cases {s s' : State} {t : Nat} {a : Act} (hstep : parseStep s t a (s.parses t) = some s')
    (ha : ∀ u, a = .commitsParsing u → u = t) :
    (Keeps s s' ∧ StepOk s a) ∨ (Writes s s' ∧ (StepOk s a ↔ s.Alive)) ∨
      (s'.points = s.points + 1 ∧ s'.deleted = s.deleted ∧ Keeps s { s' with points := s.points } ∧ (StepOk s a ↔ s.Alive)) := by
  unfold parseStep at hstep
  split at hstep
  · -- the row is read
    split at hstep
    · cases hstep
      exact .inl ⟨⟨rfl, rfl, rfl, rfl, .inl rfl⟩, trivial⟩
    · cases hstep
      exact .inl ⟨⟨rfl, rfl, rfl, rfl, .inl rfl⟩, trivial⟩
  · next u status parseStatus hp =>
    -- `parsing` is committed, unless the row was read so
    cases hstep
    obtain rfl := ha u rfl
    by_cases hs : status = .parsing
    · refine .inl ⟨⟨?_, rfl, rfl, rfl, .inl rfl⟩, fun st ps hl hne => ?_⟩
      · exact status_write (fun row => if_pos hs)
      · cases hp.symm.trans hl
        exact absurd hs hne
    · refine .inr (.inl ⟨⟨⟨.parsing, by decide, ?_⟩, rfl, rfl, rfl, rfl⟩, fun hok => hok status parseStatus hp hs, fun hal _ _ _ _ => hal⟩)
      show (s.row.map _).map _ = _
      rw [Option.map_map]
      simp only [Function.comp_def, if_neg hs]
  · cases hstep
    exact .inl ⟨⟨rfl, rfl, rfl, rfl, .inl rfl⟩, trivial⟩
  · cases hstep
    exact .inl ⟨⟨rfl, rfl, rfl, rfl, .inl rfl⟩, trivial⟩
  · cases hstep
    exact .inl ⟨⟨rfl, rfl, rfl, rfl, .inl rfl⟩, trivial⟩
  · -- the failure is committed
    cases hstep
    refine .inr (.inl ⟨⟨⟨.failed, by decide, ?_⟩, rfl, rfl, rfl, rfl⟩, Iff.rfl⟩)
    exact Option.map_map _ _ _
  · -- the old points are cleared
    cases hstep
    exact .inl ⟨⟨rfl, rfl, rfl, rfl, .inr rfl⟩, trivial⟩
  · cases hstep
    exact .inr (.inr ⟨rfl, rfl, ⟨rfl, rfl, rfl, rfl, .inl rfl⟩, Iff.rfl⟩)
  · cases hstep
    exact .inl ⟨⟨rfl, rfl, rfl, rfl, .inl rfl⟩, trivial⟩
  · cases hstep
    exact .inl ⟨⟨rfl, rfl, rfl, rfl, .inl rfl⟩, trivial⟩
  · -- the text is committed
    cases hstep
    refine .inr (.inl ⟨⟨⟨.ready, by decide, ?_⟩, rfl, rfl, rfl, rfl⟩, Iff.rfl⟩)
    exact Option.map_map _ _ _
  · cases hstep
  · cases hstep
  · cases hstep
    exact .inl ⟨⟨rfl, rfl, rfl, rfl, .inl rfl⟩, trivial⟩
  · cases hstep

theorem parse_iff {s s' : State} {t : Nat} {a : Act} (h : Inv s) (hstep : parseStep s t a (s.parses t) = some s')
    (ha : ∀ u, a = .commitsParsing u → u = t) : Inv s' ↔ StepOk s a := by
  obtain ⟨hk, hok⟩ | ⟨hw, hiff⟩ | ⟨hpoints, hdeleted, hk, hiff⟩ := parseStep_cases hstep ha
  · exact iff_of_keeps h hk hok
  · exact (inv_writes_iff h hw).trans hiff.symm
  · rw [hiff]
    refine ⟨fun h' hdel => ?_, fun halive => ?_⟩
    · have := h'.index (hdeleted.trans (h.status.2 hdel))
      omega
    · have hd : s'.deleted ≠ true := fun hd => halive (h.status.1 (hdeleted.symm.trans hd))
      have hi := inv_of_keeps h hk
      exact { hi with index := fun hd' => absurd hd' hd }

theorem deleteStep_cases {s s' : State} {d : Nat} {a : Act} (hstep : deleteStep s d a (s.deletes d) = some s') :
    (∃ file points delete, s' = { s with file := file, points := points }.setDelete d delete ∧
      (points = s.points ∨ points = 0) ∧ StepOk s a) ∨
      ∃ e row, a = .commitsDeleted e ∧ s.row = some row ∧
        s' = { s with row := some { row with status := .deleted }, deleted := true }.setDelete d .done := by
  unfold deleteStep at hstep
  split at hstep
  · split at hstep
    · cases hstep
      exact .inl ⟨s.file, s.points, _, rfl, .inl rfl, trivial⟩
    · cases hstep
      exact .inl ⟨s.file, s.points, _, rfl, .inl rfl, trivial⟩
  · cases hstep
    exact .inl ⟨_, s.points, _, rfl, .inl rfl, trivial⟩
  · next ok _ =>
    cases hstep
    refine .inl ⟨s.file, _, _, rfl, ?_, trivial⟩
    cases ok
    · exact .inl rfl
    · exact .inr rfl
  · split at hstep
    · next hnone =>
      cases hstep
      refine .inl ⟨s.file, s.points, _, rfl, .inl rfl, fun hsome => ?_⟩
      rw [hnone] at hsome
      cases hsome
    · next row hr => exact .inr ⟨_, row, rfl, hr, (Option.some.inj hstep).symm⟩
  · cases hstep
  · cases hstep
  · cases hstep
    exact .inl ⟨s.file, s.points, _, rfl, .inl rfl, trivial⟩
  · cases hstep

theorem delete_iff {s s' : State} {d : Nat} {a : Act} (h : Inv s) (hstep : deleteStep s d a (s.deletes d) = some s') :
    Inv s' ↔ StepOk s a := by
  obtain ⟨file, points, delete, rfl, hpoints, hok⟩ | ⟨e, row, rfl, hr, rfl⟩ := deleteStep_cases hstep
  · exact iff_of_keeps h ⟨rfl, rfl, rfl, rfl, hpoints⟩ hok
  · refine ⟨fun h' _ => h'.index rfl, fun hzero => ⟨⟨fun _ => rfl, fun _ => rfl⟩, h.listed, h.prompted, fun _ => ?_⟩⟩
    exact hzero (hr ▸ rfl)

theorem sweep_keeps {s s' : State} {w : Nat} {a : Act} (hstep : sweepStep s w a (s.sweeps w) = some s') : Keeps s s' := by
  unfold sweepStep at hstep
  split at hstep
  · split at hstep
    · cases hstep
    · split at hstep
      · cases hstep
        exact ⟨rfl, rfl, rfl, rfl, .inl rfl⟩
      · cases hstep
  · cases hstep
    exact ⟨status_write (fun _ => rfl), rfl, rfl, rfl, .inl rfl⟩
  · obtain ⟨u, hu, rfl⟩ := Option.map_eq_some_iff.1 hstep
    obtain ⟨hstatus, hdeleted, hlisted, hprompted, hpoints⟩ := keeps_spawn hu
    exact ⟨hstatus, hdeleted, hlisted, hprompted, hpoints⟩
  · cases hstep

theorem step_iff {s s' : State} {a : Act} (h : Inv s) (hstep : step s a = some s') : Inv s' ↔ StepOk s a := by
  have hparse : ∀ t u, Act.commitsParsing t = .commitsParsing u → u = t := fun t u hu => by cases hu; rfl
  cases a with
  | uploads isImage =>
    simp only [step] at hstep
    split at hstep
    · next hnone =>
      cases hstep
      have hd : s.deleted ≠ true := fun hd => by
        have := h.status.1 hd
        unfold State.status at this
        rw [hnone] at this
        cases this
      refine ⟨fun _ => trivial, fun _ => { h with status := ⟨fun hd' => absurd hd' hd, fun hs => ?_⟩ }⟩
      cases hs
    · cases hstep
  | spawns t =>
    simp only [step] at hstep
    split at hstep
    · obtain ⟨hstatus, hdeleted, hlisted, hprompted, hpoints⟩ := keeps_spawn hstep
      exact iff_of_keeps h ⟨hstatus, hdeleted, hlisted, hprompted, hpoints⟩ trivial
    · cases hstep
  | loads | opens | extracts | commitsFailed | clears | upserts | indexed | commitsReady | dies => exact parse_iff h hstep (fun u hu => by cases hu)
  | commitsParsing t => exact parse_iff h hstep (hparse t)
  | asks | unlinks | drops | commitsDeleted | abandons => exact delete_iff h hstep
  | selects | requeues | schedules => exact iff_of_keeps h (sweep_keeps hstep) trivial
  | lists =>
    simp only [step] at hstep
    split at hstep
    · cases hstep
      exact iff_of_keeps h ⟨rfl, rfl, rfl, rfl, .inl rfl⟩ trivial
    · next row hr =>
      cases hstep
      refine ⟨fun _ => trivial, fun _ => { h with listed := ?_ }⟩
      rw [h.listed]
      cases hd : s.deleted with
      | false => rfl
      | true => simp [deleted_row h hd hr]
  | binds messageId =>
    simp only [step] at hstep
    split at hstep
    · cases hstep
    · cases hstep
      exact iff_of_keeps h ⟨status_write (fun _ => rfl), rfl, rfl, rfl, .inl rfl⟩ trivial
  | asksText =>
    simp only [step] at hstep
    split at hstep
    · next hnone =>
      cases hstep
      refine iff_of_keeps h ⟨rfl, rfl, rfl, rfl, .inl rfl⟩ (fun row hr => ?_)
      rw [hnone] at hr
      cases hr
    · next row hr =>
      cases hstep
      refine ⟨fun h' other ho hdel => ?_, fun hok => ⟨h.status, h.listed, ?_, h.index⟩⟩
      · cases hr.symm.trans ho
        have hd : s.deleted = true := h.status.2 (by unfold State.status; rw [hr]; exact congrArg some hdel)
        have hp : (s.prompted || (s.deleted && !row.isImage && row.hasText)) = false := h'.prompted
        rw [h.prompted, hd] at hp
        cases hi : row.isImage with
        | true => exact .inl rfl
        | false => exact .inr (by simpa [hi] using hp)
      · show (s.prompted || (s.deleted && !row.isImage && row.hasText)) = false
        rw [h.prompted]
        cases hd : s.deleted with
        | false => rfl
        | true =>
          obtain hi | ht := hok row hr (deleted_row h hd hr)
          · simp [hi]
          · simp [ht]
  | rehydrates =>
    simp only [step] at hstep
    split at hstep
    · cases hstep
      exact iff_of_keeps h ⟨rfl, rfl, rfl, rfl, .inl rfl⟩ trivial
    · next row hr =>
      cases hstep
      refine ⟨fun _ => trivial, fun _ => ⟨h.status, h.listed, ?_, h.index⟩⟩
      rw [h.prompted]
      cases hd : s.deleted with
      | false => rfl
      | true => simp [deleted_row h hd hr]

/-- **A deleted attachment stays deleted** in every run under the condition. -/
theorem deleted_stays_deleted {s : State} (h : Runs step StepOk .start s) : StaysDeleted s := by
  have hs : Inv s := h.invariant inv_start (fun _ _ _ hs hok hstep => (step_iff hs hstep).2 hok)
  exact staysDeleted_of_inv hs

def sentAndDeleted : List Act :=
  [.uploads false, .spawns 0, .loads 0, .commitsParsing 0, .opens 0, .extracts 0 (some "hello".toList), .commitsReady 0, .binds 7,
    .asksText, .asks 0, .unlinks 0 true, .drops 0 true, .commitsDeleted 0, .lists, .rehydrates]

theorem deleted_stays_deleted_sent : StaysDeleted (play step .start sentAndDeleted) := by
  have hread : Runs step StepOk .start (play step .start (sentAndDeleted.take 3)) :=
    .next (.loads 0) (.next (.spawns 0) (.next (.uploads false) .refl trivial rfl) trivial rfl) trivial rfl
  have hparsing : StepOk (play step .start (sentAndDeleted.take 3)) (.commitsParsing 0) := fun _ _ _ _ => by
    unfold State.Alive
    decide
  have hready : StepOk (play step .start (sentAndDeleted.take 6)) (.commitsReady 0) := by
    show State.Alive _
    unfold State.Alive
    decide
  have hparsed : Runs step StepOk .start (play step .start (sentAndDeleted.take 7)) :=
    .next (.commitsReady 0) (.next (.extracts 0 (some "hello".toList)) (.next (.opens 0) (.next (.commitsParsing 0) hread hparsing
      rfl) trivial rfl) trivial rfl) hready rfl
  have hasks : StepOk (play step .start (sentAndDeleted.take 8)) .asksText := by
    intro row hr hdel
    cases hr
    cases hdel
  have hempty : StepOk (play step .start (sentAndDeleted.take 12)) (.commitsDeleted 0) := fun _ => rfl
  exact deleted_stays_deleted (.next .rehydrates (.next .lists (.next (.commitsDeleted 0) (.next (.drops 0 true)
    (.next (.unlinks 0 true) (.next (.asks 0) (.next .asksText (.next (.binds 7) hparsed trivial rfl) hasks rfl) trivial rfl)
    trivial rfl) trivial rfl) hempty rfl) trivial rfl) trivial rfl)

def deletedWhileParsing : List Act :=
  [.uploads false, .spawns 0, .loads 0, .commitsParsing 0, .opens 0, .asks 0, .unlinks 0 true, .drops 0 true, .commitsDeleted 0,
    .extracts 0 (some "hello".toList), .commitsReady 0]

/-- **A parse that ends after the deletion.** -/
theorem parse_undoes_deletion : ¬ ∀ s, Reaches step .start s → StaysDeleted s := by
  intro h
  have hs := h (play step .start deletedWhileParsing) (reaches_play (by decide))
  exact absurd (hs.status (by decide)) (by decide)

/-! ## a deletion with nothing on its way -/

def Sweep.Ends : Sweep → Prop
  | .idle => True
  | .done => True
  | _ => False

structure State.Settled (s : State) : Prop where
  parses : ∀ t, (s.parses t).Ends
  sweeps : ∀ w, (s.sweeps w).Ends
  unspawned : s.unspawned = false
  final : ∀ row, s.row = some row → row.parseStatus = .ready ∨ row.parseStatus = .failed

def CalmOk (s : State) : Act → Prop
  | .commitsDeleted _ => s.Settled ∧ s.points = 0
  | .asksText => StepOk s .asksText
  | _ => True

theorem parseStep_ends {s : State} {t : Nat} (a : Act) (h : (s.parses t).Ends) : parseStep s t a (s.parses t) = none := by
  cases hp : s.parses t with
  | idle | done =>
    cases a with
    | extracts u text => cases text <;> rfl
    | _ => rfl
  | _ =>
    rw [hp] at h
    exact h.elim

theorem sweepStep_ends {s : State} {w : Nat} (a : Act) (h : s.Settled) : sweepStep s w a (s.sweeps w) = none := by
  have hends := h.sweeps w
  cases hw : s.sweeps w with
  | idle =>
    cases a with
    | selects u =>
      cases hr : s.row with
      | none => simp only [sweepStep, hr]
      | some row =>
        have hfinal := h.final row hr
        simp only [sweepStep, hr]
        refine if_neg (fun hstale => ?_)
        obtain hf | hf := hfinal
        · rw [hf] at hstale
          exact absurd hstale (by decide)
        · rw [hf] at hstale
          exact absurd hstale (by decide)
    | _ => rfl
  | done => cases a <;> rfl
  | _ =>
    rw [hw] at hends
    exact hends.elim

theorem settled_delete {s s' : State} {d : Nat} {a : Act} (h : s.Settled) (hstep : deleteStep s d a (s.deletes d) = some s') :
    s'.Settled := by
  obtain ⟨file, points, delete, rfl, -, -⟩ | ⟨e, row, -, hr, rfl⟩ := deleteStep_cases hstep
  · exact { h with }
  · refine { h with final := fun other ho => ?_ }
    cases ho
    exact h.final row hr

/-- **A settled state stays settled**: what is left are deletions, lists, bindings and turns. -/
theorem settled_step {s s' : State} {a : Act} (h : s.Settled) (hrow : s.row.isSome) (hstep : step s a = some s') : s'.Settled := by
  obtain ⟨row, hr⟩ := Option.isSome_iff_exists.1 hrow
  have hparse : ∀ t b, parseStep s t b (s.parses t) ≠ some s' := fun t b hp => by
    rw [parseStep_ends b (h.parses t)] at hp
    cases hp
  have hsweep : ∀ w b, sweepStep s w b (s.sweeps w) ≠ some s' := fun w b hp => by
    rw [sweepStep_ends b h] at hp
    cases hp
  cases a with
  | uploads isImage =>
    simp only [step, hr] at hstep
    cases hstep
  | spawns t =>
    simp [step, h.unspawned] at hstep
  | asks | unlinks | drops | commitsDeleted | abandons => exact settled_delete h hstep
  | selects w | requeues w | schedules w t => exact absurd hstep (hsweep w _)
  | lists | asksText | rehydrates =>
    simp only [step] at hstep
    split at hstep
    · cases hstep
      exact h
    · cases hstep
      exact { h with }
  | binds messageId =>
    simp only [step, hr] at hstep
    cases hstep
    refine { h with final := fun other ho => ?_ }
    obtain ⟨old, hold, rfl⟩ := Option.map_eq_some_iff.1 ho
    exact h.final old hold
  | loads t | commitsParsing t | opens t | extracts t text | commitsFailed t | clears t | upserts t | indexed t
  | commitsReady t | dies t => exact absurd hstep (hparse t _)

theorem stepOk_of_calm {s s' : State} {a : Act} (h : Inv s) (hset : s.deleted = true → s.Settled) (hok : CalmOk s a)
    (hstep : step s a = some s') : StepOk s a := by
  have halive : ∀ t b, parseStep s t b (s.parses t) = some s' → s.Alive := by
    intro t b hp hdel
    rw [parseStep_ends b ((hset (h.status.2 hdel)).parses t)] at hp
    cases hp
  cases a with
  | commitsParsing t => exact fun _ _ _ _ => halive t _ hstep
  | commitsFailed t | commitsReady t | upserts t => exact halive t _ hstep
  | commitsDeleted d => exact fun _ => hok.2
  | asksText => exact hok
  | _ => trivial

theorem parse_deleted {s s' : State} {t : Nat} {a : Act} (hstep : parseStep s t a (s.parses t) = some s')
    (ha : ∀ u, a = .commitsParsing u → u = t) : s'.deleted = s.deleted := by
  obtain ⟨hk, -⟩ | ⟨hw, -⟩ | ⟨-, hdeleted, -, -⟩ := parseStep_cases hstep ha
  · exact hk.deleted
  · exact hw.deleted
  · exact hdeleted

theorem delete_deleted {s s' : State} {d : Nat} {a : Act} (hstep : deleteStep s d a (s.deletes d) = some s')
    (ha : ∀ e, a ≠ .commitsDeleted e) : s'.deleted = s.deleted := by
  obtain ⟨file, points, delete, rfl, -, -⟩ | ⟨e, row, hcommit, -, -⟩ := deleteStep_cases hstep
  · rfl
  · exact absurd hcommit (ha e)

theorem deleted_kept {s s' : State} {a : Act} (hstep : step s a = some s') (ha : ∀ d, a ≠ .commitsDeleted d) :
    s'.deleted = s.deleted := by
  have hparse : ∀ t u, Act.commitsParsing t = .commitsParsing u → u = t := fun t u hu => by cases hu; rfl
  cases a with
  | uploads isImage =>
    simp only [step] at hstep
    split at hstep
    · cases hstep
      rfl
    · cases hstep
  | spawns t =>
    simp only [step] at hstep
    split at hstep
    · exact (keeps_spawn hstep).deleted
    · cases hstep
  | loads | opens | extracts | commitsFailed | clears | upserts | indexed | commitsReady | dies => exact parse_deleted hstep (fun u hu => by cases hu)
  | commitsParsing t => exact parse_deleted hstep (hparse t)
  | asks | unlinks | drops | abandons => exact delete_deleted hstep ha
  | commitsDeleted d => exact absurd rfl (ha d)
  | selects | requeues | schedules => exact (sweep_keeps hstep).deleted
  | binds messageId =>
    simp only [step] at hstep
    split at hstep
    · cases hstep
    · cases hstep
      rfl
  | _ =>
    simp only [step] at hstep
    split at hstep
    · cases hstep
      rfl
    · cases hstep
      rfl

theorem settled_of_step {s s' : State} {a : Act} (h : Inv s) (hok : CalmOk s a) (hset : s.deleted = true → s.Settled)
    (hstep : step s a = some s') (hd : s'.deleted = true) : s'.Settled := by
  by_cases ha : ∃ d, a = .commitsDeleted d
  · obtain ⟨d, rfl⟩ := ha
    exact settled_delete hok.1 hstep
  · have hbefore : s.deleted = true := (deleted_kept hstep (fun d hd => ha ⟨d, hd⟩)).symm.trans hd
    have hrow : s.row.isSome := by
      have := h.status.1 hbefore
      unfold State.status at this
      cases hr : s.row with
      | none =>
        rw [hr] at this
        cases this
      | some row => rfl
    exact settled_step (hset hbefore) hrow hstep

theorem calm_deletion_stays {s : State} (h : Runs step CalmOk .start s) : StaysDeleted s := by
  have hs : Inv s ∧ (s.deleted = true → s.Settled) := by
    refine h.invariant (P := fun t => Inv t ∧ (t.deleted = true → t.Settled)) ⟨inv_start, fun h => by cases h⟩
      (fun t a t' ht hok hstep => ?_)
    have h' : Inv t' := (step_iff ht.1 hstep).2 (stepOk_of_calm ht.1 ht.2 hok hstep)
    exact ⟨h', settled_of_step ht.1 hok ht.2 hstep⟩
  exact staysDeleted_of_inv hs.1

end Attachment
end MyGpt
