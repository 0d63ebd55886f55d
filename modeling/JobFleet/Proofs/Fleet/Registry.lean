/-
  JobFleet.Proofs.Fleet.Registry: the registry of a scheduler, entry by entry.

  A registry is in the strict order of the identities, so an identity has one entry.  Then putting
  an entry in, taking one out and changing one all have the same shape: the entries of other
  identities stay, and the identity has its new entry or none (`Swapped`).  What a scheduler is
  asked to do about one job is such a swap, with a driver that is stopped and a driver that is
  started.

  Main results:
    * `swapped_insert`, `swapped_change`, `swapped_erase` — the operations of a registry are swaps.
-/
import JobFleet.Proofs.Fleet.Turns
import JobFleet.Proofs.Text.Tokens

namespace JobFleet

open JobFleet.Schedule

/-! ## Entries in order -/

namespace Entry

/-- The entries of a registry are in the strict order of their identities. -/
def Sorted (entries : List Entry) : Prop := entries.Pairwise (fun e e' => e.id < e'.id)

variable {e e' : Entry} {entries : List Entry} {id : String}

/-- An identity has one entry. -/
theorem Sorted.eq_of_id (h : Sorted entries) (he : e ∈ entries) (he' : e' ∈ entries)
    (hid : e.id = e'.id) : e = e' := by
  have hnodup : (entries.map Entry.id).Nodup := by
    rw [List.Nodup, List.pairwise_map]
    refine h.imp ?_
    intro e₁ e₂ hlt heq
    rw [heq] at hlt
    exact String.lt_irrefl _ hlt
  exact List.inj_on_of_nodup_map hnodup he he' hid

/-- After a swap an identity has another entry or none, and the others are as they were. -/
def Swapped (id : String) (new : Option Entry) (entries entries' : List Entry) : Prop :=
  Sorted entries' ∧ ∀ e, e ∈ entries' ↔ (e ∈ entries ∧ e.id ≠ id) ∨ new = some e

/-- An entry that is found is there, and has the identity. -/
theorem find?_eq_some (h : Entry.find? id entries = some e) : e ∈ entries ∧ e.id = id :=
  ⟨List.mem_of_find?_eq_some h, by simpa using List.find?_some h⟩

theorem find?_eq_none (h : Entry.find? id entries = none) : ∀ e ∈ entries, e.id ≠ id := by
  intro e he
  simpa using List.find?_eq_none.1 h e he

/-- Taking an entry out swaps it for none. -/
theorem swapped_erase (h : Sorted entries) (id : String) :
    Swapped id none entries (Entry.erase id entries) := by
  refine ⟨h.sublist List.filter_sublist, ?_⟩
  intro e
  simp [Entry.erase]

/-- Changing an entry swaps it for what it becomes, since identities are unique. -/
theorem swapped_change (h : Sorted entries) (hfound : e ∈ entries) {change : Entry → Entry}
    (hid : ∀ e₀, e₀.id = e.id → (change e₀).id = e.id) :
    Swapped e.id (some (change e)) entries (Entry.change e.id change entries) := by
  constructor
  · unfold Entry.change Sorted
    rw [List.pairwise_map]
    refine h.imp ?_
    intro e₁ e₂ hlt
    have hsame : ∀ e₀ : Entry, (if e₀.id = e.id then change e₀ else e₀).id = e₀.id := by
      intro e₀
      by_cases heq : e₀.id = e.id
      · rw [if_pos heq, hid e₀ heq, heq]
      · rw [if_neg heq]
    rw [hsame, hsame]
    exact hlt
  · intro e'
    simp only [Entry.change, List.mem_map, Option.some.injEq]
    constructor
    · intro hmem
      obtain ⟨e₀, he₀, rfl⟩ := hmem
      by_cases heq : e₀.id = e.id
      · right
        rw [if_pos heq, h.eq_of_id he₀ hfound heq]
      · left
        rw [if_neg heq]
        exact ⟨he₀, heq⟩
    · intro hor
      rcases hor with ⟨hold, hne⟩ | rfl
      · exact ⟨e', hold, if_neg hne⟩
      · exact ⟨e, hfound, if_pos rfl⟩

/-- An entry that comes before the first one has an identity of its own. -/
theorem id_ne_of_lt_first {first : Entry} {rest : List Entry} (h : Sorted (first :: rest))
    (hlt : e.id < first.id) :
    ∀ e₀ ∈ first :: rest, e₀.id ≠ e.id := by
  intro e₀ he₀ heq
  rcases List.mem_cons.1 he₀ with rfl | hmem
  · rw [heq] at hlt
    exact String.lt_irrefl _ hlt
  · have hlater := String.lt_trans hlt ((List.pairwise_cons.1 h).1 e₀ hmem)
    rw [heq] at hlater
    exact String.lt_irrefl _ hlater

/-- No later entry has the identity of the first one. -/
theorem id_ne_of_first {first : Entry} {rest : List Entry} (h : Sorted (first :: rest)) :
    ∀ e₀ ∈ rest, e₀.id ≠ first.id := by
  intro e₀ he₀ heq
  have hlt := (List.pairwise_cons.1 h).1 e₀ he₀
  rw [heq] at hlt
  exact String.lt_irrefl _ hlt

/-- Putting an entry in keeps those of other identities. -/
theorem mem_insert_iff (h : Sorted entries) : e' ∈ Entry.insert e entries ↔
    (e' ∈ entries ∧ e'.id ≠ e.id) ∨ e = e' := by
  induction entries with
  | nil => simp [Entry.insert, eq_comm]
  | cons first rest ih =>
    have hrest : Sorted rest := (List.pairwise_cons.1 h).2
    unfold Entry.insert
    split
    · -- the entry comes before all others
      rename_i hlt
      have hne := id_ne_of_lt_first h hlt e'
      grind
    · split
      · -- the entry takes the place of the first
        rename_i heq
        have hne := id_ne_of_first h e'
        grind
      · rename_i _ hne
        rw [List.mem_cons, ih hrest, List.mem_cons]
        grind

/-- A registry stays sorted when an entry is put in. -/
theorem sorted_insert (h : Sorted entries) : Sorted (Entry.insert e entries) := by
  induction entries with
  | nil => exact List.pairwise_singleton _ _
  | cons first rest ih =>
    obtain ⟨hfirst, hrest⟩ := List.pairwise_cons.1 h
    unfold Entry.insert
    split
    · rename_i hlt
      refine List.pairwise_cons.2 ⟨?_, h⟩
      intro e₀ he₀
      rcases List.mem_cons.1 he₀ with rfl | hmem
      · exact hlt
      · exact String.lt_trans hlt (hfirst e₀ hmem)
    · split
      · rename_i heq
        refine List.pairwise_cons.2 ⟨?_, hrest⟩
        intro e₀ he₀
        rw [heq]
        exact hfirst e₀ he₀
      · rename_i hnot hne
        refine List.pairwise_cons.2 ⟨?_, ih hrest⟩
        intro e₀ he₀
        rcases (mem_insert_iff hrest).1 he₀ with ⟨hmem, -⟩ | rfl
        · exact hfirst e₀ hmem
        · exact Text.lt_of_not_lt hnot hne

/-- Putting an entry in swaps the one of its identity, if there was one. -/
theorem swapped_insert (h : Sorted entries) (e : Entry) :
    Swapped e.id (some e) entries (Entry.insert e entries) := by
  refine ⟨sorted_insert h, ?_⟩
  intro e'
  rw [mem_insert_iff h, Option.some.injEq]

/-! ## Entries without what was announced -/

/-- The order is about identities, so announcements do not matter to it. -/
theorem sorted_map_plain : Sorted (entries.map Entry.plain) ↔ Sorted entries := List.pairwise_map

/-- The entries of a registry are those of the scheduler, without what was announced. -/
theorem mem_map_plain : e' ∈ entries.map Entry.plain ↔ ∃ e ∈ entries, e.plain = e' := List.mem_map

/-- What was announced does not matter to a swap. -/
theorem Swapped.plain {new : Option Entry} {entries' : List Entry}
    (h : Swapped id new entries entries') :
    Swapped id (new.map Entry.plain) (entries.map Entry.plain) (entries'.map Entry.plain) := by
  refine ⟨sorted_map_plain.2 h.1, ?_⟩
  intro e
  simp only [mem_map_plain, h.2, Option.map_eq_some_iff]
  constructor
  · intro hmem
    obtain ⟨e₀, ⟨hold, hne⟩ | hnew, rfl⟩ := hmem
    · exact .inl ⟨⟨e₀, hold, rfl⟩, hne⟩
    · exact .inr ⟨e₀, hnew, rfl⟩
  · intro hmem
    rcases hmem with ⟨⟨e₀, hold, rfl⟩, hne⟩ | ⟨e₀, hnew, rfl⟩
    · exact ⟨e₀, .inl ⟨hold, hne⟩, rfl⟩
    · exact ⟨e₀, .inr hnew, rfl⟩

/-- The driver that an entry is given, before it has begun. -/
def driverOf (i : Nat) (e : Entry) :
    Driver := { scheduler := i, serial := e.serial, job := e.job, trigger := e.trigger }

end Entry

namespace Fleet

/-! ## Changing one scheduler -/

section

variable {σ : Type} {f g : Fleet σ} {i j : Nat}

/-- The zone in which a scheduler evaluates cron expressions. -/
def zone? (f : Fleet σ) (i : Nat) : Option Time.Zone := (f.schedulers[i]?).map (·.config.zone)

/-- A scheduler is as it was. -/
structure SameAt (i : Nat) (f g : Fleet σ) : Prop where
  registry : g.registry i = f.registry i
  isRunning : g.isRunning i = f.isRunning i
  flights : g.flights i = f.flights i
  zone? : g.zone? i = f.zone? i

/-- Only what is under its number makes a scheduler what it is. -/
theorem sameAt_of_getElem? (h : g.schedulers[i]? = f.schedulers[i]?) : SameAt i f g := by
  refine ⟨?_, ?_, ?_, ?_⟩
  · unfold registry entriesOf
    rw [h]
  · unfold isRunning
    rw [h]
  · unfold flights
    rw [h]
  · unfold zone?
    rw [h]

/-- Changing one scheduler leaves the others alone. -/
theorem sameAt_of_modify {change : Scheduler → Scheduler}
    (h : g.schedulers = f.schedulers.modify j change) (hne : i ≠ j) : SameAt i f g := by
  apply sameAt_of_getElem?
  rw [h, List.getElem?_modify_ne change f.schedulers (Ne.symm hne)]

/-- What is under a number after it was changed is the change of what was there. -/
theorem getElem?_of_modify {change : Scheduler → Scheduler}
    (h : g.schedulers = f.schedulers.modify j change) :
    g.schedulers[j]? = (f.schedulers[j]?).map change := by
  rw [h, List.getElem?_modify_eq]
  rfl

theorem entriesOf_of_getElem? {s : Scheduler} (h : f.schedulers[i]? = some s) :
    f.entriesOf i = s.entries := by
  unfold entriesOf
  rw [h]
  rfl

theorem isRunning_of_getElem? {s : Scheduler} (h : f.schedulers[i]? = some s) :
    f.isRunning i = s.running := by
  unfold isRunning
  rw [h]
  rfl

theorem zone?_of_getElem? {s : Scheduler} (h : f.schedulers[i]? = some s) :
    f.zone? i = some s.config.zone := by
  unfold zone?
  rw [h]
  rfl

/-- A scheduler with an entry exists. -/
theorem exists_of_mem_registry {e : Entry} (h : e ∈ f.registry i) :
    ∃ s, f.schedulers[i]? = some s := by
  unfold registry entriesOf at h
  cases hsched : f.schedulers[i]? with
  | some s => exact ⟨s, rfl⟩
  | none =>
    rw [hsched] at h
    cases h

/-- The registry after it was changed. -/
theorem registry_of_modify {change : List Entry → List Entry}
    (h : g.schedulers = f.schedulers.modify j (fun s => { s with entries := change s.entries }))
    (hexists : ∃ s, f.schedulers[j]? = some s) :
      g.registry j = (change (f.entriesOf j)).map Entry.plain := by
  obtain ⟨s, hsched⟩ := hexists
  have hself := getElem?_of_modify h
  rw [hsched] at hself
  unfold registry
  rw [entriesOf_of_getElem? hself, entriesOf_of_getElem? hsched]

/-- Aborting the driver of an entry stops that number and no other. -/
theorem does_abortDriver {n : Nat} {a : Activity} {e : Entry} :
    (f.abortDriver e).Does n a ↔ f.Does n a ∧ e.driver ≠ some n := by
  unfold abortDriver
  cases hdriver : e.driver with
  | none => simp
  | some k =>
    simp only [does_dropTask, Option.some.injEq, ne_eq]
    rw [and_comm, eq_comm (a := n)]

theorem schedulers_abortDriver (e : Entry) : (f.abortDriver e).schedulers = f.schedulers := by
  unfold abortDriver
  split <;> rfl

theorem ends_abortDriver (e : Entry) : (f.abortDriver e).ends = f.ends := by
  unfold abortDriver
  split <;> rfl

theorem nextNumber_abortDriver (e : Entry) : (f.abortDriver e).nextNumber = f.nextNumber := by
  unfold abortDriver
  split <;> rfl

end

end Fleet

end JobFleet
