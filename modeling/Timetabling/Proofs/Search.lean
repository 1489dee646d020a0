import Timetabling.Proofs.Construction.Looseness
import Timetabling.Proofs.Variation.Donation
import Timetabling.Proofs.Variation.Mutation

/-! A search as a run of steps. Its state is a strategy and a population, to which the steps add what
    they build, cross or mutate; between them the choices of the strategy may change. One step keeps
    all members of a population such as a complete draft gives when it gets rooms, and so does a run. -/

namespace Timetabling

open Instance Draw

variable {I : Instance}

/-- What a search may do next: add a population of some size, cross two members or mutate one, by
    their positions, or change what was chosen. -/
inductive Step where
  | populate (size : Nat)
  | cross (i j : Nat)
  | mutate (i : Nat)
  | chooseDonation (rule : DonationRule)
  | chooseMutation (kind : MutationKind)
  | configure (settings : Settings)
  deriving DecidableEq, Repr

/-- The choices made so far, and every timetable that was added. -/
structure Search (I : Instance) where
  strategy : Strategy
  population : List (Timetable I)

namespace Search

/-- The search with more timetables. -/
def extend (x : Search I) (ts : List (Timetable I)) : Search I :=
  { x with population := x.population ++ ts }

variable {σ : Type} [WordSource σ]

/-- The search after one step. A position without a member, a population that cannot be built and a
    mutation that finds no change add nothing. -/
def step (x : Search I) : Step → Draw σ (Search I)
  | .populate size => do
    match ← x.strategy.initial I size with
    | .ok ts => return x.extend ts
    | .error _ => return x
  | .cross i j =>
    match x.population[i]?, x.population[j]? with
    | some p, some q => do
      let (first, second) ← x.strategy.cross p q
      return x.extend [first, second]
    | _, _ => return x
  | .mutate i =>
    match x.population[i]? with
    | some p => do return x.extend (← x.strategy.mutate p).toList
    | none => return x
  | .chooseDonation rule => return { x with strategy.donation := rule }
  | .chooseMutation kind => return { x with strategy.mutation := kind }
  | .configure settings => return { x with strategy.settings := settings }

/-- The search after steps that begin without timetables. -/
def run (strategy : Strategy) (steps : List Step) : Draw σ (Search I) :=
  steps.foldlM step ⟨strategy, []⟩

/-- Every member of the population came from a draft with the lectures that building sees to. -/
def Lodged (x : Search I) : Prop := ∀ t ∈ x.population, t.Lodged sought

/-- All members are still there when the search has gone on, and every member came from a draft with the
    lectures that building sees to. -/
structure GrowsTo (x y : Search I) : Prop where
  kept : x.population <+: y.population
  lodged : y.Lodged

variable {x : Search I}

theorem Lodged.growsTo (h : x.Lodged) : x.GrowsTo x := ⟨List.prefix_rfl, h⟩

theorem Lodged.growsTo_extend (h : x.Lodged) {ts : List (Timetable I)}
    (hts : ∀ t ∈ ts, t.Lodged sought) : x.GrowsTo (x.extend ts) := by
  refine ⟨List.prefix_append .., ?_⟩
  intro t ht
  rcases List.mem_append.1 ht with ht | ht
  · exact h t ht
  · exact hts t ht

theorem Lodged.gives_populate (h : x.Lodged) (hI : I.Coherent) (size : Nat) :
    Gives (x.step (.populate size) : Draw σ (Search I)) x.GrowsTo := by
  refine (gives_buildMany hI _ size).bind ?_
  intro built hbuilt
  cases built with
  | error e => exact gives_pure h.growsTo
  | ok ts => exact gives_pure (h.growsTo_extend hbuilt.2)

theorem Lodged.gives_cross (h : x.Lodged) (hI : I.Coherent) (i j : Nat) :
    Gives (x.step (.cross i j) : Draw σ (Search I)) x.GrowsTo := by
  simp only [step]
  split
  · rename_i p q hp hq
    have hp := h p (List.mem_of_getElem? hp)
    have hq := h q (List.mem_of_getElem? hq)
    refine (Timetabling.gives_cross hI (hp.covers hI) (hq.covers hI) _ _).bind ?_
    rintro ⟨first, second⟩ ⟨hfirst, hsecond⟩
    refine gives_pure (h.growsTo_extend ?_)
    intro t ht
    rcases List.mem_pair.1 ht with rfl | rfl
    · rcases hfirst with rfl | hfirst
      · exact hp
      · exact hfirst
    · rcases hsecond with rfl | hsecond
      · exact hq
      · exact hsecond
  · exact gives_pure h.growsTo

theorem Lodged.gives_mutate (h : x.Lodged) (hI : I.Coherent) (i : Nat) :
    Gives (x.step (.mutate i) : Draw σ (Search I)) x.GrowsTo := by
  simp only [step]
  split
  · rename_i p hp
    have hp := h p (List.mem_of_getElem? hp)
    refine (x.strategy.mutation.gives_mutate hI (hp.covers hI) x.strategy.settings).bind ?_
    intro o ho
    exact gives_pure (h.growsTo_extend fun t ht => ho t (Option.mem_toList.1 ht))
  · exact gives_pure h.growsTo

/-- One step of a search comes to an end, keeps every member and leaves every member lodged. -/
theorem Lodged.gives_step (h : x.Lodged) (hI : I.Coherent) (s : Step) :
    Gives (x.step s : Draw σ (Search I)) x.GrowsTo := by
  cases s with
  | populate size => exact h.gives_populate hI size
  | cross i j => exact h.gives_cross hI i j
  | mutate i => exact h.gives_mutate hI i
  | chooseDonation => exact gives_pure ⟨List.prefix_rfl, h⟩
  | chooseMutation => exact gives_pure ⟨List.prefix_rfl, h⟩
  | configure => exact gives_pure ⟨List.prefix_rfl, h⟩

theorem Lodged.gives_steps (h : x.Lodged) (hI : I.Coherent) (steps : List Step) :
    Gives (steps.foldlM step x : Draw σ (Search I)) x.GrowsTo := by
  refine gives_foldlM (R := fun _ => x.GrowsTo) ?_ h.growsTo
  intro s _ y hy
  exact (hy.lodged.gives_step hI s).mono fun z hz => ⟨hy.kept.trans hz.kept, hz.lodged⟩

theorem gives_run_lodged (hI : I.Coherent) (strategy : Strategy) (steps : List Step) :
    Gives (run strategy steps : Draw σ (Search I)) Lodged := by
  have hnil : (⟨strategy, []⟩ : Search I).Lodged := List.forall_mem_nil _
  exact (hnil.gives_steps hI steps).mono fun _ h => h.lodged

/-- Where every build succeeds there are members after a population was added. -/
theorem Lodged.gives_populate_ne_nil (h : x.Lodged) (hI : I.Coherent)
    (hbuild : ∀ s : Xoshiro, ∃ t s',
      (build I x.strategy.settings.initAttempts).run s = some (.ok t, s')) (size : Nat) :
    Gives (x.step (.populate (size + 1)) : Draw σ (Search I))
      fun y => y.Lodged ∧ y.population ≠ [] := by
  refine (gives_buildMany hI _ (size + 1)).bind ?_
  intro built hbuilt
  cases built with
  | error e =>
    obtain ⟨seed, s', hrun⟩ := hbuilt
    obtain ⟨t, s'', hok⟩ := hbuild (Xoshiro.ofSeed seed)
    rw [hok] at hrun
    cases hrun
  | ok ts =>
    obtain ⟨hlength, hlodged⟩ := hbuilt
    refine gives_pure ⟨(h.growsTo_extend hlodged).lodged, ?_⟩
    exact List.append_ne_nil_of_right_ne_nil _ (List.ne_nil_of_length_eq_add_one hlength)

/-- A search that begins with a population and whose builds all succeed has members ever after. -/
theorem gives_run_populate_ne_nil (hI : I.Coherent) (strategy : Strategy)
    (hbuild : ∀ s : Xoshiro, ∃ t s',
      (build I strategy.settings.initAttempts).run s = some (.ok t, s')) (size : Nat)
    (steps : List Step) :
    Gives (run strategy (.populate (size + 1) :: steps) : Draw σ (Search I))
      fun x => x.population ≠ [] := by
  have hnil : (⟨strategy, []⟩ : Search I).Lodged := List.forall_mem_nil _
  rw [run, List.foldlM_cons]
  refine (hnil.gives_populate_ne_nil hI hbuild size).bind ?_
  rintro y ⟨hy, hne⟩
  refine (hy.gives_steps hI steps).mono ?_
  intro z hz hempty
  exact hne (List.prefix_nil.1 (hempty ▸ hz.kept))

end Search

end Timetabling
