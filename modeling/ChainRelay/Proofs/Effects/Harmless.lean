import ChainRelay.Proofs.Effects.Carrying

/-! # Programs that change no files

A program is harmless if it only asks what changes no files, whatever it is answered. Harmless programs
are put together from harmless parts, and what is known of the results of a part can be used for the
next.
-/

namespace ChainRelay

/-- The question changes no files. -/
def Question.Harmless : Question → Prop
  | .writeFile _ _ => False
  | .createFoldersAround _ => False
  | _ => True

namespace Program

/-- The program changes no files, its results have the property, and it waits only if it may. -/
def Harmless (waits : Prop) (P : α → Prop) : Program α → Prop
  | .done a => P a
  | .ask q next => q.Harmless ∧ ∀ answer, Harmless waits P (next answer)
  | .pause next => waits ∧ Harmless waits P next
  | .awaitCancel next => waits ∧ Harmless waits P next
  | .hang => waits

variable {waits : Prop} {P : α → Prop} {Q : β → Prop}

theorem Harmless.only {p : Program α} (harmless : p.Harmless waits P) : p.Only Question.Harmless := by
  induction p with
  | done | hang => trivial
  | ask q next ih => exact ⟨harmless.1, fun answer => ih answer (harmless.2 answer)⟩
  | pause next ih => exact ih harmless.2
  | awaitCancel next ih => exact ih harmless.2

theorem Harmless.bind {p : Program α} (harmless : p.Harmless waits P) {f : α → Program β}
    (more : ∀ a, P a → (f a).Harmless waits Q) : (p >>= f).Harmless waits Q := by
  change (p.bind f).Harmless waits Q
  induction p with
  | done a => exact more a harmless
  | ask q next ih => exact ⟨harmless.1, fun answer => ih answer (harmless.2 answer)⟩
  | pause next ih => exact ⟨harmless.1, ih harmless.2⟩
  | awaitCancel next ih => exact ⟨harmless.1, ih harmless.2⟩
  | hang => exact harmless

theorem Harmless.mono {p : Program α} (harmless : p.Harmless waits P) {waits' : Prop} {P' : α → Prop}
    (may : waits → waits') (weaker : ∀ a, P a → P' a) : p.Harmless waits' P' := by
  induction p with
  | done a => exact weaker a harmless
  | ask q next ih => exact ⟨harmless.1, fun answer => ih answer (harmless.2 answer)⟩
  | pause next ih => exact ⟨may harmless.1, ih harmless.2⟩
  | awaitCancel next ih => exact ⟨may harmless.1, ih harmless.2⟩
  | hang => exact may harmless

theorem harmless_question {q : Question} (harmless : q.Harmless) :
    (question q).Harmless waits fun _ => True :=
  ⟨harmless, fun _ => trivial⟩

theorem harmless_print (text : String) : (print text).Harmless waits fun _ => True :=
  harmless_question trivial

theorem harmless_log (level : LogLevel) (source : LogSource) (message : String) :
    (log level source message).Harmless waits fun _ => True :=
  harmless_question trivial

theorem harmless_logAll (entries : List LogEntry) : (logAll entries).Harmless waits fun _ => True := by
  induction entries with
  | nil => trivial
  | cons entry rest ih => exact ⟨trivial, fun _ => ih⟩

theorem Harmless.within {p : Program α} (harmless : p.Harmless waits P) (span : String) :
    (within span p).Harmless waits P := by
  induction p with
  | done a => exact harmless
  | ask q next ih =>
      have later := fun answer => ih answer (harmless.2 answer)
      cases q <;> exact ⟨harmless.1, later⟩
  | pause next ih => exact ⟨harmless.1, ih harmless.2⟩
  | awaitCancel next ih => exact ⟨harmless.1, ih harmless.2⟩
  | hang => exact harmless

theorem harmless_post (address body : String) : (post address body).Harmless True fun _ => True := by
  refine ⟨trivial, fun reply => ?_⟩
  cases reply with
  | response => exact ⟨trivial, trivial⟩
  | unreachable => trivial
  | silence => trivial

theorem Harmless.untilCancelled {p : Program α} (harmless : p.Harmless waits P) :
    (untilCancelled p).Harmless True fun r => ∀ a, r = some a → P a := by
  have stopped : (Program.done none : Program (Option α)).Harmless True fun r => ∀ a, r = some a → P a := by
    intro a same
    cases same
  have going : (untilCancelled.go p).Harmless True fun r => ∀ a, r = some a → P a := by
    induction p with
    | done a =>
        rintro b ⟨⟩
        exact harmless
    | ask q next ih => exact ⟨harmless.1, fun answer => ih answer (harmless.2 answer)⟩
    | pause next ih =>
        refine ⟨trivial, trivial, fun stop => ?_⟩
        cases stop with
        | true => exact stopped
        | false => exact ih harmless.2
    | awaitCancel next ih => exact ⟨trivial, stopped⟩
    | hang => exact ⟨trivial, stopped⟩
  refine ⟨trivial, fun stop => ?_⟩
  cases stop with
  | true => exact stopped
  | false => exact going

end Program

namespace Attempt

/-- The attempt changes no files, and what it succeeds with has the property. -/
def Harmless (waits : Prop) (P : α → Prop) (attempt : Attempt α) : Prop :=
  Program.Harmless waits (fun r : Except Report α => ∀ a, r = .ok a → P a) attempt.run

variable {waits : Prop} {P : α → Prop} {Q : β → Prop}

theorem harmless_pure {a : α} (holds : P a) : Harmless waits P (pure a : Attempt α) := by
  rintro b ⟨⟩
  exact holds

theorem harmless_fail (r : Report) : Harmless waits P (fail r : Attempt α) := by
  rintro a ⟨⟩

theorem Harmless.bind {attempt : Attempt α} (harmless : Harmless waits P attempt) {f : α → Attempt β}
    (more : ∀ a, P a → Harmless waits Q (f a)) : Harmless waits Q (attempt >>= f) := by
  rw [Harmless, Attempt.run_bind]
  refine Program.Harmless.bind harmless fun r holds => ?_
  cases r with
  | ok a => exact more a (holds a rfl)
  | error e =>
      rintro b ⟨⟩

theorem harmless_lift {p : Program α} (harmless : p.Harmless waits P) :
    Harmless waits P (liftM p : Attempt α) := by
  refine Program.Harmless.bind harmless fun a holds => ?_
  rintro b ⟨⟩
  exact holds

theorem harmless_ofProgram {report : ε → Report} {p : Program (Except ε α)}
    (harmless : p.Harmless waits fun r => ∀ a, r = .ok a → P a) :
    Harmless waits P (ofProgram report p) := by
  refine Program.Harmless.bind harmless fun r holds => ?_
  cases r with
  | ok a =>
      rintro b ⟨⟩
      exact holds a rfl
  | error e =>
      rintro b ⟨⟩

theorem harmless_ofExcept {report : ε → Report} {r : Except ε α} (holds : ∀ a, r = .ok a → P a) :
    Harmless waits P (ofExcept report r) :=
  harmless_ofProgram holds

theorem harmless_ofOption (message : String) {o : Option α} (holds : ∀ a, o = some a → P a) :
    Harmless waits P (ofOption message o) := by
  cases o with
  | none => exact harmless_fail _
  | some a => exact harmless_pure (holds a rfl)

theorem Harmless.untilCancelled {attempt : Attempt α} (harmless : Harmless waits P attempt) :
    Harmless True P (untilCancelled attempt) := by
  refine (Program.Harmless.untilCancelled harmless).bind fun r holds => ?_
  cases r with
  | none =>
      rintro b ⟨⟩
  | some r => exact holds r rfl

theorem harmless_forM {xs : List α} {f : α → Attempt Unit}
    (each : ∀ x ∈ xs, Harmless waits (fun _ => True) (f x)) :
    Harmless waits (fun _ => True) (forM xs f) := by
  induction xs with
  | nil => exact harmless_pure trivial
  | cons x rest ih =>
      obtain ⟨here, others⟩ := List.forall_mem_cons.mp each
      rw [List.forM_cons]
      exact here.bind fun _ _ => ih others

end Attempt

namespace World

/-- The files and the home directory of the user are the same. -/
structure SameDisk (w w' : World) : Prop where
  files : w'.files = w.files
  userHome : w'.userHome = w.userHome

theorem SameDisk.refl (w : World) : SameDisk w w :=
  ⟨rfl, rfl⟩

theorem SameDisk.trans {w w' w'' : World} (first : SameDisk w w') (second : SameDisk w' w'') :
    SameDisk w w'' :=
  ⟨second.files.trans first.files, second.userHome.trans first.userHome⟩

theorem sameDisk_keep (w : World) (entry : LogEntry) : SameDisk w (w.keep entry) := by
  unfold keep
  split <;> exact ⟨rfl, rfl⟩

theorem sameDisk_afterPrint (w : World) (text : String) : SameDisk w (w.afterPrint text) := by
  unfold afterPrint
  split
  · split <;> exact ⟨rfl, rfl⟩
  · exact .refl w

theorem sameDisk_answer {q : Question} (harmless : q.Harmless) (w : World) :
    SameDisk w (w.answer q).2 := by
  cases q with
  | writeFile => cases harmless
  | createFoldersAround => cases harmless
  | print text => exact ⟨(sameDisk_afterPrint _ text).files, (sameDisk_afterPrint _ text).userHome⟩
  | log entry => exact sameDisk_keep w entry
  | openLog limit =>
      unfold answer
      split <;> exact ⟨rfl, rfl⟩
  | post address body =>
      unfold answer
      dsimp only
      split <;> exact ⟨rfl, rfl⟩
  | readFile => exact .refl w
  | listFolder => exact .refl w
  | fileExists => exact .refl w
  | userHome => exact .refl w
  | isCancelled => exact .refl w
  | construct => exact ⟨rfl, rfl⟩

theorem sameDisk_interrupted (w : World) : SameDisk w w.interrupted.2 := by
  unfold interrupted
  dsimp only
  split
  · exact ⟨(sameDisk_keep _ _).files, (sameDisk_keep _ _).userHome⟩
  · exact ⟨(sameDisk_keep _ _).files, (sameDisk_keep _ _).userHome⟩

theorem sameDisk_pass (w : World) : SameDisk w w.pass := by
  unfold pass
  split <;> exact ⟨rfl, rfl⟩

theorem carried_sameDisk : Carried Question.Harmless SameDisk where
  refl := .refl
  trans := .trans
  answer w _ harmless := sameDisk_answer harmless w
  interrupted := sameDisk_interrupted
  pass := sameDisk_pass
  stop _ := ⟨rfl, rfl⟩

/-- What a run of a harmless program leaves, and how it ends. -/
structure Undisturbed (waits : Prop) (P : α → Prop) (w : World) (ran : Ending α × World) : Prop where
  disk : SameDisk w ran.2
  result : ∀ a, ran.1 = .finished a → P a
  ends : waits ∨ ∃ a, ran.1 = .finished a

/-- A run that comes to no result has waited. -/
theorem result_of_harmless {waits : Prop} {P : α → Prop} {p : Program α} (harmless : p.Harmless waits P)
    (w : World) : (∃ a, (run p w).1 = .finished a ∧ P a) ∨ waits ∧ ∀ a, (run p w).1 ≠ .finished a := by
  have aborted (a : α) : Ending.aborted ≠ .finished a := by rintro ⟨⟩
  have stuck (a : α) : Ending.stuck ≠ .finished a := by rintro ⟨⟩
  induction p generalizing w with
  | done a => exact .inl ⟨a, rfl, harmless⟩
  | ask q next ih => exact ih _ (harmless.2 _) _
  | pause next ih =>
      rw [run]
      split
      · exact .inr ⟨harmless.1, aborted⟩
      · exact ih harmless.2 _
  | awaitCancel next ih =>
      rw [run]
      split
      · exact .inr ⟨harmless.1, aborted⟩
      · split
        · exact ih harmless.2 _
        · split
          · exact ih harmless.2 _
          · exact .inr ⟨harmless.1, stuck⟩
  | hang =>
      rw [run]
      split
      · exact .inr ⟨harmless, aborted⟩
      · exact .inr ⟨harmless, stuck⟩

theorem run_harmless {waits : Prop} {P : α → Prop} {p : Program α} (harmless : p.Harmless waits P)
    (w : World) : Undisturbed waits P w (run p w) where
  disk := carried_sameDisk.run harmless.only w
  result b ended := by
    obtain ⟨a, came, holds⟩ | ⟨-, never⟩ := result_of_harmless harmless w
    · cases came.symm.trans ended
      exact holds
    · exact absurd ended (never b)
  ends := by
    obtain ⟨a, came, -⟩ | ⟨waited, -⟩ := result_of_harmless harmless w
    · exact .inr ⟨a, came⟩
    · exact .inl waited

/-- A harmless program that does not wait comes to an end. -/
theorem run_prompt {P : α → Prop} {p : Program α} (harmless : p.Harmless False P) (w : World) :
    ∃ a w', run p w = (.finished a, w') ∧ w.SameDisk w' := by
  have ran := run_harmless harmless w
  obtain ⟨a, ended⟩ := ran.ends.resolve_left id
  exact ⟨a, (run p w).2, Prod.ext ended rfl, ran.disk⟩

end World

/-- A harmless part leaves the disk as it was, and either decides how the run ends or lets it go on. -/
theorem Attempt.run_bind_harmless {x : Attempt α} {f : α → Attempt β} {P : α → Prop}
    (harmless : Harmless True P x) {w : World} {Post : Ending (Except Report β) × World → Prop}
    (ended : ∀ ran : Ending (Except Report β) × World, w.SameDisk ran.2 → Post ran)
    (more : ∀ a w', P a → w.SameDisk w' → Post (World.run (f a).run w')) :
    Post (World.run (x >>= f).run w) := by
  have first := World.run_harmless harmless w
  rw [run_bind, World.run_bind]
  cases ran : World.run x.run w with
  | mk ending w' =>
      rw [ran] at first
      cases ending with
      | finished r =>
          cases r with
          | ok a => exact more a w' (first.result _ rfl a rfl) first.disk
          | error e => exact ended _ first.disk
      | stuck => exact ended _ first.disk
      | aborted => exact ended _ first.disk

end ChainRelay
