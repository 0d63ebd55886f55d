/-
  JobFleet.Proofs.Fleet.Displays: what the entry of a job shows, and what its driver waits for.

  A driver that waits has announced what it waits for, so while a job is active its entry shows the
  truth, but for two things.  A shutdown takes the drivers away and leaves what they had announced
  (`CutOff`); the next driver has not asked its trigger before its first turn, and never does so if
  it cannot read its job.  And a driver that was told to stop may announce once more.  That does no
  harm: no time has passed since, so it gets the answer that the new driver gets.

  Main results:
    * `shows_of_idle` — an entry that is not active shows nothing, unless a shutdown has cut it off.
    * `answer_eq` — whoever asks its trigger gets the first fire time from that instant on.
    * `displays_through` — what is shown all through a period.
-/
import JobFleet.Proofs.Fleet.Announcements
import JobFleet.Proofs.Fleet.Handles

namespace JobFleet

open JobFleet.Schedule JobFleet.Time

namespace Fleet

/-- The scheduler was shut down at some point while the registration with this number was active. -/
def CutOff (f : Fleet FaultyStore) (row : List Occurrence) (i serial : Nat) : Prop :=
  ∃ before o, before ++ [o] <+: row ∧ o.Stops i ∧ (f.through before).Active i serial

section

variable {f g : Fleet FaultyStore} {row point first last : List Occurrence} {o : Occurrence}
    {i k m n serial : Nat}
  {d : Driver} {e e' : Entry} {shown : Option Instant}

/-! ## Shutdowns -/

theorem CutOff.mono (h : CutOff f point i serial) (hle : point <+: row) :
    CutOff f row i serial := by
  obtain ⟨before, o, hpre, hrest⟩ := h
  exact ⟨before, o, hpre.trans hle, hrest⟩

/-- Only a shutdown stops a scheduler. -/
theorem isRunning_of_effect (hs : f.Sound) (h : Effect f o g) (hruns : f.isRunning i = true)
    (hnot : ¬ o.Stops i) : g.isRunning i = true := by
  cases h with
  | turns h => exact (isRunning_congr (turned_of_turns hs h).frames i).trans hruns
  | @rewires j h =>
    by_cases hi : i = j
    · subst hi
      exact h.running hruns
    · rw [(h.others i hi).isRunning]
      exact hruns
  | @stops j waits foreground ho h =>
    have hi : i ≠ j := by
      intro hi
      subst hi
      exact hnot ⟨waits, foreground, ho⟩
    rw [(h.others hi).2]
    exact hruns

/-- A driver that is to stop was told by a shutdown that cut its registration off. -/
theorem cutOff_of_stopping (hpristine : f.Pristine) (hdoes : (f.through point).Does m (.drive d))
    (hstopping : d.stopping = true) : CutOff f point d.scheduler d.serial := by
  induction point using List.reverseRecOn generalizing m d with
  | nil =>
    obtain ⟨t, ht, -⟩ := hdoes
    have hnone : t ∈ f.tasks := ht
    rw [hpristine.tasks] at hnone
    cases hnone
  | append_singleton point o ih =>
    have hs := sound_through hpristine.sound point
    have hw := wired_through hpristine point
    have hle : point <+: point ++ [o] := List.prefix_append point [o]
    rw [through_concat] at hdoes
    obtain hold | ⟨ho, hold⟩ := (driverFrom_of_effect hs hw hdoes).of_stopping hstopping
    · exact (ih hold hstopping).mono hle
    · -- it was not told before, so its registration was active
      exact ⟨point, o, List.prefix_rfl, ho,
        active_of_driver (d := { d with stopping := false }) hw hold rfl⟩

/-! ## Entries that are not active -/

theorem Pristine.entriesOf (h : f.Pristine) (i : Nat) : f.entriesOf i = [] :=
  List.map_eq_nil_iff.1 (h.registry i)

/-- What an entry shows after an occurrence was announced while it was active, unless it was cut
    off. -/
theorem shows_step (hpristine : f.Pristine) (ih : ∀ e ∈ (f.through point).entriesOf i,
      e.nextRun = none ∨ CutOff f point i e.serial ∨ (f.through point).Active i e.serial)
    (he' : e' ∈ (f.through (point ++ [o])).entriesOf i) :
    e'.nextRun = none ∨ CutOff f (point ++ [o]) i e'.serial ∨
    (f.through point).Active i e'.serial := by
  have hw := wired_through hpristine point
  have hle : point <+: point ++ [o] := List.prefix_append point [o]
  have hold : ∀ e ∈ (f.through point).entriesOf i, e'.serial = e.serial → e'.nextRun = e.nextRun →
      e'.nextRun = none ∨ CutOff f (point ++ [o]) i e'.serial ∨
      (f.through point).Active i e'.serial := by
    intro e he hserial hnext
    rw [hserial, hnext]
    exact (ih e he).imp_right (Or.imp_left (CutOff.mono · hle))
  rw [through_concat] at he'
  cases announced_occur (sound_through hpristine.sound point) o i with
  | silent hsilent =>
    cases hsilent e' he' with
    | stays he hbare hnext => exact hold _ he (Entry.serial_of_bare hbare) hnext
    | clears _ _ hnone => exact .inl hnone
    | enters _ hnone => exact .inl hnone
  | @announces m d _ hdoes hi _ _ hentries =>
    rw [hentries] at he'
    obtain ⟨e, he, rfl⟩ := List.mem_map.1 he'
    by_cases hserial : e.serial = d.serial
    · rw [if_pos hserial]
      show _ ∨ CutOff f _ i e.serial ∨ (f.through point).Active i e.serial
      rw [hserial, ← hi]
      cases hstopping : d.stopping with
      | true => exact .inr (.inl ((cutOff_of_stopping hpristine hdoes hstopping).mono hle))
      | false => exact .inr (.inr (active_of_driver hw hdoes hstopping))
    · rw [if_neg hserial] at hold ⊢
      exact hold e he rfl rfl

/-- An entry that was active still is, unless it shows nothing or was cut off. -/
theorem active_step (hpristine : f.Pristine) (he' : e' ∈ (f.through (point ++ [o])).entriesOf i)
    (hactive : (f.through point).Active i e'.serial) :
    e'.nextRun = none ∨ CutOff f (point ++ [o]) i e'.serial ∨
      (f.through (point ++ [o])).Active i e'.serial := by
  have hs := sound_through hpristine.sound point
  have hw := wired_through hpristine point
  by_cases hstops : o.Stops i
  · exact .inr (.inl ⟨point, o, List.prefix_rfl, hstops, hactive⟩)
  · rw [through_concat] at he' ⊢
    have hruns := isRunning_of_effect hs (effect_occur hs hw o) hactive.1 hstops
    -- it was not paused before
    have hold : ∀ e ∈ (f.through point).entriesOf i, e'.serial = e.serial →
      (e.paused = false → e'.paused = false) →
        ((f.through point).occur o).Active i e'.serial := by
      intro e he hserial hunpaused
      have hbefore : e.plain.paused = false :=
        unpaused_of_active hw (List.mem_map_of_mem he) (show _ from hserial ▸ hactive)
      exact ⟨hruns, e'.plain, List.mem_map_of_mem he', rfl, hunpaused hbefore⟩
    cases announced_occur hs o i with
    | silent hsilent =>
      cases hsilent e' he' with
      | stays he hbare _ hunpaused =>
        exact .inr (.inr (hold _ he (Entry.serial_of_bare hbare) hunpaused))
      | clears _ _ hnone => exact .inl hnone
      | enters _ hnone => exact .inl hnone
    | @announces m d _ _ _ _ _ hentries =>
      have hmem := he'
      rw [hentries] at hmem
      obtain ⟨e, he, heq⟩ := List.mem_map.1 hmem
      refine .inr (.inr (hold e he ?_ ?_))
      · rw [← heq]
        split <;> rfl
      · intro hunpaused
        rw [← heq]
        split <;> exact hunpaused

/-- **What is left behind.** An entry that is not active shows nothing, unless a shutdown has cut it
    off. -/
theorem shows_of_idle (hpristine : f.Pristine) (i : Nat) (point : List Occurrence) :
    ∀ e ∈ (f.through point).entriesOf i,
      e.nextRun = none ∨ CutOff f point i e.serial ∨ (f.through point).Active i e.serial := by
  induction point using List.reverseRecOn with
  | nil =>
    intro e he
    have hnone : e ∈ f.entriesOf i := he
    rw [hpristine.entriesOf] at hnone
    cases hnone
  | append_singleton point o ih =>
    intro e he
    obtain hnone | hcut | hactive := shows_step hpristine ih he
    · exact .inl hnone
    · exact .inr (.inl hcut)
    · exact active_step hpristine he hactive

/-! ## Rows that go on -/

theorem through_append (f : Fleet FaultyStore) (before rest : List Occurrence) :
    f.through (before ++ rest) = (f.through before).through rest := List.foldl_append

theorem timely_append {before rest : List Occurrence} :
    f.Timely (before ++ rest) ↔ f.Timely before ∧ (f.through before).Timely rest := by
  induction before generalizing f with
  | nil => exact (iff_of_eq (true_and _)).symm
  | cons o before ih =>
    show f.Prompt o.plain ∧ (f.occur o).Timely (before ++ rest) ↔
      (f.Prompt o.plain ∧ (f.occur o).Timely before) ∧ ((f.occur o).through before).Timely rest
    rw [ih, and_assoc]

namespace Regulated

theorem mono (h : f.Regulated row) (hpoint : point <+: row) : f.Regulated point := by
  obtain ⟨rest, rfl⟩ := hpoint
  exact ⟨h.pristine, (timely_append.1 h.timely).1, h.whole, h.orderly⟩

theorem append (h : f.Regulated point) (rest : List Occurrence)
    (hrest : (f.through point).Timely rest) :
    f.Regulated (point ++ rest) :=
  ⟨h.pristine, timely_append.2 ⟨h.timely, hrest⟩, h.whole, h.orderly⟩

/-! ## What drivers announce -/

/-- A driver that asks its trigger gets the first fire time from that very instant on. -/
theorem answer_eq (h : f.Regulated row) (hpre : point ++ [o] <+: row) (ho : o.plain = .turn m)
    (hdoes : (f.through point).Does m (.drive d))
    (hdue : d.awaited ≠ none → d.stopping = true → d.IsDue (f.through point).world) :
    d.trigger.next? d.awaited (f.through point).world.now =
      d.trigger.nth? (f.through point).world.now 0 := by
  obtain ⟨e, first, last, hserves⟩ :=
    h.serves_through point ((List.prefix_append point [o]).trans hpre) m d hdoes
  have hdeclared : d.trigger.IsDeclared := by
    rw [trigger_eq hserves]
    exact h.isDeclared hserves
  cases hawaited : d.awaited with
  | none => exact Trigger.next?_none hdeclared
  | some x =>
    have hx := h.now_of_turn hpre hserves ho hdoes (hdue (by simp [hawaited])) hawaited
    rw [hx]
    exact Trigger.next?_after hdeclared x

/-- A driver with the serial number of an entry has its declaration, also if it was started for an
    earlier one. -/
theorem declaration_eq (h : f.Regulated row) (hpoint : point <+: row)
    (he : e ∈ (f.through point).registry i) (hdoes : (f.through point).Does n (.drive d))
    (hi : d.scheduler = i) (hserial : d.serial = e.serial) :
    d.job = e.job ∧ d.trigger = e.trigger := by
  obtain ⟨e₂, first, last, hserves⟩ := h.serves_through point hpoint n d hdoes
  have hserial₂ : e.serial = e₂.serial := by
    rw [← hserial, hserves.same]
    rfl
  have hbare : e.bare = e₂.bare :=
    bare_through h.pristine (hi ▸ hserves.period.entry)
      (hserves.period.order.trans hserves.within) he hserial₂
  injection hbare with _ hjob htrigger
  rw [hjob, htrigger, hserves.same]
  exact ⟨rfl, rfl⟩

/-- As long as no time has passed since a period began, its driver waits for the first fire time. -/
theorem nth?_of_now (h : f.Regulated point) (hdeclared : e.trigger.IsDeclared)
    (hticks : ∀ x : Instant, (f.through first).world.now.nanos < x.nanos →
      f.ticksAt i e.id x point = e.trigger.among (f.through first).world.now k x)
    (hnow : (f.through point).world.now = (f.through first).world.now) :
    e.trigger.nth? (f.through first).world.now k =
      e.trigger.nth? (f.through first).world.now 0 := by
  cases hfirst : e.trigger.nth? (f.through first).world.now 0 with
  | none => exact Trigger.nth?_none_mono (Nat.zero_le k) hfirst
  | some y =>
    rcases Nat.eq_zero_or_pos k with rfl | hpos
    · exact hfirst
    · -- it would have fired for the first one, which is still to come
      have hle := h.le_now_of_fired hdeclared hticks hpos hfirst
      rw [hnow] at hle
      exact absurd (Trigger.lt_nth hdeclared hfirst) (Int.not_lt.2 hle)

end Regulated

/-! ## All through a period -/

/-- What the entry of a period shows, next to what its driver does. -/
structure Displays (f : Fleet FaultyStore) (i : Nat) (e : Entry) (m : Nat) (cut : Prop)
    (shown : Option Instant) : Prop where
  waits : ∀ x, f.Does m (.drive { e.driverOf i with awaited := some x }) → shown = some x
  begins : f.Does m (.drive (e.driverOf i)) → shown = none ∨ cut
  ended : (∀ a, ¬ f.Does m a) → shown = none ∨ (cut ∧ e.job.unreadableWhileLocked = true)

variable {cut cut' : Prop}

/-- Nothing changes for a driver that stays as it is, or stays away. -/
theorem Displays.of_same (h : Displays f i e m cut shown) (hcut : cut → cut')
    (hsame : ∀ a, g.Does m a ↔ f.Does m a) :
    Displays g i e m cut' shown where
  waits := fun x hdoes => h.waits x ((hsame _).1 hdoes)
  begins := fun hdoes => (h.begins ((hsame _).1 hdoes)).imp_right hcut
  ended := fun hgone => (h.ended fun a ha => hgone a ((hsame a).2 ha)).imp_right (And.imp_left hcut)

/-- A driver that goes on with an answer waits for what was announced. -/
theorem displays_of_rest {awaited : Option Instant} {now : Instant}
    (hrest : ∀ a, g.Does m a ↔ Driver.rest { e.driverOf i with awaited := awaited } now = some a) :
    Displays g i e m cut (e.trigger.next? awaited now) := by
  have hanswer : Driver.rest { e.driverOf i with awaited := awaited } now =
      (e.trigger.next? awaited now).map (fun next =>
        .drive { e.driverOf i with awaited := some next }) := rfl
  rw [hanswer] at hrest
  refine ⟨?_, ?_, ?_⟩
  · intro x hdoes
    obtain ⟨next, hnext, hactivity⟩ := Option.map_eq_some_iff.1 ((hrest _).1 hdoes)
    injection hactivity with hdrive
    injection hdrive with _ _ _ _ hawaited
    rw [hnext, hawaited]
  · intro hdoes
    obtain ⟨next, -, hactivity⟩ := Option.map_eq_some_iff.1 ((hrest _).1 hdoes)
    injection hactivity with hdrive
    injection hdrive with _ _ _ _ hawaited
    cases hawaited
  · intro hgone
    cases hnext : e.trigger.next? awaited now with
    | none => exact .inl rfl
    | some next => exact absurd ((hrest _).2 (by rw [hnext]; rfl)) (hgone _)

/-- A driver that keeps its task does just what it did, and one that is gone stays away. -/
theorem does_iff_of_kept (hs : f.Sound) (hw : f.Wired) (hs' : g.Sound) (heffect : Effect f o g)
    (he : e ∈ f.registry i) (hm : e.driver = some m)
    (hkept : ∀ d, f.Does m (.drive d) → g.Does m (.drive d)) (a : Activity) :
    g.Does m a ↔ f.Does m a := by
  obtain ⟨-, -, hbelow, hdriver⟩ := hw.handles i e he m hm
  have hstays : ∀ b, f.Does m b → g.Does m b := by
    intro b hb
    obtain ⟨awaited, rfl⟩ := hdriver b hb
    exact hkept _ hb
  constructor
  · intro ha
    obtain ⟨b, hb, -⟩ := heffect.origin hs ha hbelow
    rw [hs'.does_unique ha (hstays b hb)]
    exact hb
  · exact hstays a

/-- Without an announcement the entry shows what it did, and its driver waits as it did, unless it
    cannot begin. -/
theorem displays_of_quiet (hs : f.Sound) (hw : f.Wired) (hs' : g.Sound) (heffect : Effect f o g)
    (he : e ∈ f.registry i) (hm : e.driver = some m) (hactive : g.Active i e.serial)
    (hquiet : ∀ m d, o.plain = .turn m → f.Does m (.drive d) → d.scheduler = i →
      g.Does m (.drive d) ∨ d.stopping = true ∨
      (d.awaited = none ∧ Run.unreadable d.job f.world = true))
    (hcut : cut → cut') (h : Displays f i e m cut shown) : Displays g i e m cut' shown := by
  obtain ⟨-, -, -, hdriver⟩ := hw.handles i e he m hm
  by_cases hkept : ∀ d, f.Does m (.drive d) → g.Does m (.drive d)
  · exact h.of_same hcut (does_iff_of_kept hs hw hs' heffect he hm hkept)
  · simp only [not_forall] at hkept
    obtain ⟨d, hdoes, hnot⟩ := hkept
    obtain hkept | ⟨ho, hturn⟩ := driver_of_effect hs hw heffect he hm hactive hdoes
    · exact absurd hkept hnot
    obtain ⟨awaited, hactivity⟩ := hdriver _ hdoes
    injection hactivity with hdrive
    subst hdrive
    obtain hkept | hstopping | ⟨hawaited, hunreadable⟩ := hquiet m _ ho hdoes rfl
    · exact absurd hkept hnot
    · cases hstopping
    · -- the driver had its first turn, and could not read its job
      have hawaited : awaited = none := hawaited
      subst hawaited
      have hgone : ∀ a, ¬ g.Does m a := by
        intro a ha
        cases hturn with
        | fails _ _ hacts => cases (hacts.does_self a).1 ha
        | begins _ hread =>
          have hread : Run.unreadable e.job f.world = false := hread
          have hunreadable : Run.unreadable e.job f.world = true := hunreadable
          rw [hread] at hunreadable
          cases hunreadable
        | stops hstopping => cases hstopping
        | fires hsome => exact absurd rfl hsome
        | stray hsome => exact absurd rfl hsome
      refine ⟨fun x hx => absurd hx (hgone _), fun hx => absurd hx (hgone _), ?_⟩
      intro _
      exact (h.begins hdoes).imp_right fun hc => ⟨hcut hc, (Bool.and_eq_true_iff.1 hunreadable).1⟩

namespace Regulated

/-- Another driver announces the first fire time of the period, for which the driver of the period
    waits. -/
theorem displays_of_other (h : f.Regulated row) (hpoint : point <+: row)
    (hdeclared : e.trigger.IsDeclared)
    (hstage : ∃ k, Stage i e m (f.through first).world.now (f.through point) k ∧
      ∀ x : Instant, (f.through first).world.now.nanos < x.nanos →
        f.ticksAt i e.id x point = e.trigger.among (f.through first).world.now k x)
    (hnow : (f.through point).world.now = (f.through first).world.now)
    (hsame : ∀ a, g.Does m a ↔ (f.through point).Does m a) (hcut : cut) :
    Displays g i e m cut (e.trigger.nth? (f.through first).world.now 0) := by
  have hs := h.sound point
  obtain ⟨k, hstage, hticks⟩ := hstage
  rw [← (h.mono hpoint).nth?_of_now hdeclared hticks hnow]
  refine ⟨?_, fun _ => .inr hcut, ?_⟩
  · intro x hdoes
    have hdoes := (hsame _).1 hdoes
    cases hstage with
    | begins hbegins => cases hs.does_unique hdoes hbegins
    | waits hwaits hx =>
      cases hs.does_unique hdoes hwaits
      exact hx
    | ended hgone => exact absurd hdoes (hgone _)
  · intro hgone
    cases hstage with
    | begins hbegins => exact absurd ((hsame _).2 hbegins) (hgone _)
    | waits hwaits => exact absurd ((hsame _).2 hwaits) (hgone _)
    | ended _ _ hlast => exact hlast.imp_right fun hunreadable => ⟨hcut, hunreadable⟩

/-- One step of a period. -/
theorem displays_step (h : f.Regulated row) (hperiod : Period f i e first last)
    (hlast : last <+: row) (hm : e.driver = some m) (hfrom : first <+: point)
    (hto : point ++ [o] <+: last) (ih : ∀ e₀ ∈ (f.through point).entriesOf i, e₀.plain = e →
      Displays (f.through point) i e m (CutOff f point i e.serial) e₀.nextRun)
    (he' : e' ∈ (f.through (point ++ [o])).entriesOf i) (hplain : e'.plain = e) :
    Displays (f.through (point ++ [o])) i e m (CutOff f (point ++ [o]) i e.serial) e'.nextRun := by
  have hle : point <+: point ++ [o] := List.prefix_append point [o]
  have hs := h.sound point
  have hs' := h.sound (point ++ [o])
  have hw := h.wired point
  have htraced := h.traced_through hperiod hlast hm point hfrom (hle.trans hto)
  have he := htraced.entry
  have hactive := hperiod.active _ (hfrom.trans hle) hto
  have heffect := effect_occur hs hw o
  have hserial : e'.serial = e.serial := by
    rw [← hplain]
    rfl
  -- what the entry was before
  have hbefore : ∀ e₀ ∈ (f.through point).entriesOf i, e₀.serial = e.serial → e₀.plain = e :=
    fun e₀ he₀ hsame =>
    hw.serials i e₀.plain (List.mem_map_of_mem he₀) e he hsame
  have hcut : CutOff f point i e.serial → CutOff f (point ++ [o]) i e.serial := (CutOff.mono · hle)
  rw [through_concat] at he' hactive hs' ⊢
  cases announced_occur hs o i with
  | silent hsilent hquiet =>
    cases hsilent e' he' with
    | @stays e₀ he₀ hbare hnext =>
      have hsame := hbefore e₀ he₀ ((Entry.serial_of_bare hbare).symm.trans hserial)
      rw [hnext]
      exact displays_of_quiet hs hw hs' heffect he hm hactive hquiet hcut (ih e₀ he₀ hsame)
    | clears _ _ _ hpaused =>
      -- the job was paused, but it is active
      have hunpaused : e'.plain.paused = false := by
        rw [← hserial] at hactive
        exact unpaused_of_active (heffect.wired hs hw) (List.mem_map_of_mem he') hactive
      have hpaused : e'.plain.paused = true := hpaused
      rw [hunpaused] at hpaused
      cases hpaused
    | enters hnew =>
      have hbelow := hw.below i e he
      omega
  | @announces n d ho hdoes hi hdue hrest hentries =>
    rw [hentries] at he'
    obtain ⟨e₀, he₀, rfl⟩ := List.mem_map.1 he'
    have hserial₀ : e₀.serial = e.serial := by
      rw [← hserial]
      split <;> rfl
    by_cases hn : n = m
    · -- its own driver
      subst hn
      obtain ⟨-, -, -, hdriver⟩ := hw.handles i e he n hm
      obtain ⟨awaited, hactivity⟩ := hdriver _ hdoes
      injection hactivity with hdrive
      subst hdrive
      have hannounced : e₀.serial = Driver.serial { e.driverOf i with awaited := awaited } :=
        hserial₀
      rw [if_pos hannounced]
      exact displays_of_rest hrest
    · have hkept : ∀ d₀, (f.through point).Does m (.drive d₀) →
          ((f.through point).occur o).Does m (.drive d₀) := by
        intro d₀ hd₀
        obtain hkept | ⟨hturn, -⟩ := driver_of_effect hs hw heffect he hm hactive hd₀
        · exact hkept
        · rw [ho] at hturn
          injection hturn with hsame
          exact absurd hsame hn
      have hsame := does_iff_of_kept hs hw hs' heffect he hm hkept
      by_cases hannounced : e₀.serial = d.serial
      · -- the driver of an earlier period, which was told to stop
        have hpre := hto.trans hlast
        have hpoint : point <+: row := hle.trans hpre
        obtain ⟨hjob, htrigger⟩ :=
          h.declaration_eq hpoint he hdoes hi (hannounced.symm.trans hserial₀)
        have hid : d.job.id = e.id := congrArg Job.id hjob
        have hnow := h.now_of_other hperiod hlast hfrom (hle.trans hto) he hm hdoes hi hid hn
        have hstopping : d.stopping = true := by
          by_contra hgoes
          exact hn (hw.eq_driver he hm hdoes hi hid (by simpa using hgoes))
        have hcutoff := cutOff_of_stopping h.pristine hdoes hstopping
        rw [hi, ← hannounced, hserial₀] at hcutoff
        rw [if_pos hannounced]
        show Displays _ i e m _ (d.trigger.next? d.awaited (f.through point).world.now)
        rw [h.answer_eq hpre ho hdoes hdue, htrigger, hnow]
        exact h.displays_of_other hpoint (h.declared he) htraced.stage hnow hsame (hcut hcutoff)
      · rw [if_neg hannounced]
        exact (ih e₀ he₀ (hbefore e₀ he₀ hserial₀)).of_same hcut hsame

/-- **Displays.**  All through a period its entry shows what the driver waits for.  Before its first
    turn it shows nothing, and after it has ended too, unless a shutdown has cut the registration
    off and the driver did not ask its trigger since. -/
theorem displays_through (h : f.Regulated row) (hperiod : Period f i e first last)
    (hlast : last <+: row) (hm : e.driver = some m) : ∀ point, first <+: point → point <+: last →
      ∀ e₀ ∈ (f.through point).entriesOf i, e₀.plain = e →
        Displays (f.through point) i e m (CutOff f point i e.serial) e₀.nextRun := by
  refine prefix_induction_from ?_ ?_
  · intro e₀ he₀ hplain
    have hs := h.sound first
    have hdoes := h.does_of_begin hperiod hm
    have hshows : e₀.nextRun = none ∨ CutOff f first i e.serial := by
      rw [← hplain]
      rcases List.eq_nil_or_concat' first with rfl | ⟨before, o, rfl⟩
      · have hnone : e₀ ∈ f.entriesOf i := he₀
        rw [h.pristine.entriesOf] at hnone
        cases hnone
      · -- the registration was not active before
        obtain hnone | hcut | hactive :=
          shows_step h.pristine (shows_of_idle h.pristine i before) he₀
        · exact .inl hnone
        · exact .inr hcut
        · have hidle := hperiod.begins before o rfl
          rw [← hplain] at hidle
          exact absurd hactive hidle
    refine ⟨?_, fun _ => hshows, fun hgone => absurd hdoes (hgone _)⟩
    intro x hx
    cases hs.does_unique hx hdoes
  · intro point o hfrom hto ih e' he' hplain
    exact h.displays_step hperiod hlast hm hfrom hto ih he' hplain

end Regulated

end

end Fleet

end JobFleet
