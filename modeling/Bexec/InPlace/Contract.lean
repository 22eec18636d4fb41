import Bexec.InPlace.Storage

/-!
# What in-place storage guarantees

For each of the three classes, whatever calls are made and whichever of them
throw: what is alive, that the markers say so, and that every object is
destroyed once.
-/

namespace Bexec.InPlace

open Foundation

variable {S T : Type}

/-- The markers agree with what the place holds. -/
structure Sound (I : Interface S T) (s : S) (noted : Option T) : Prop where
  markers : ∀ marker ∈ I.markers, marker s = noted
  holds : (I.place s).Holds noted
  accounted : (I.place s).Accounted

/-- What the calls and the destructor of a class have to do. -/
structure Lawful (I : Interface S T) : Prop where
  initial : Sound I I.initial none
  call : ∀ s noted call s', Sound I s noted → I.call s call = some s' →
    (∃ noted', Sound I s' noted') ∧
      (I.place s').alive = call.leaves (I.place s).constructed (I.place s).alive
  accepts : ∀ s noted call, Sound I s noted → ((I.call s call).isSome ↔
    I.has call ∧ (call = .start → (I.place s).alive ≠ []))
  destroy : ∀ s noted, Sound I s noted → Sound I (I.destroy s) none

/-- The guarantees of a storage at every point of its use. -/
structure Contract (I : Interface S T) (s : State S) : Prop where
  /-- At most one object is alive, and it is the last one constructed. -/
  one : (I.place s.object).alive.length ≤ 1
  last : ∀ object type, (object, type) ∈ (I.place s.object).alive →
    (I.place s.object).constructed = object + 1
  /-- Every marker is set exactly while an object is alive, to its type. -/
  marked : ∀ marker ∈ I.markers, ∀ type,
    marker s.object = some type ↔ ∃ object, (I.place s.object).alive = [(object, type)]
  /-- Until the destructor every call that the class has is carried out, except that
  `start` needs an operation that is alive. -/
  accepted : ∀ call, (I.step s (.call call)).isSome ↔ s.destroyed = false ∧ I.has call ∧
    (call = .start → (I.place s.object).alive ≠ [])
  /-- A successful construction leaves its own object alive, `start` what was
  alive before, and every other call, a construction that throws among them, none. -/
  effect : ∀ call s', I.step s (.call call) = some s' → (I.place s'.object).alive =
    call.leaves (I.place s.object).constructed (I.place s.object).alive
  /-- An object that was constructed is alive or has been destroyed, and not twice. -/
  accounted : ∀ object, object < (I.place s.object).constructed ↔
    object ∈ (I.place s.object).destroyed ∨ ∃ type, (object, type) ∈ (I.place s.object).alive
  once : (I.place s.object).destroyed.Nodup ∧
    ∀ object type, (object, type) ∈ (I.place s.object).alive →
      object ∉ (I.place s.object).destroyed
  /-- No destructor and no start function has run without an object of its type. -/
  sound : (I.place s.object).misused = false
  /-- The destructor leaves nothing alive. -/
  ended : s.destroyed = true → (I.place s.object).alive = []

variable {I : Interface S T} {s s' : State S}

theorem Sound.marked {s : S} {noted : Option T} (h : Sound I s noted) {marker : S → Option T}
    (hmarker : marker ∈ I.markers) (type : T) :
    marker s = some type ↔ ∃ object, (I.place s).alive = [(object, type)] := by
  rw [h.markers marker hmarker]
  have hholds := h.holds
  cases hholds with
  | vacant halive => simp [halive]
  | @occupied object type' halive hlast => simp [halive]

theorem Lawful.reachable (hI : Lawful I) (hs : I.machine.Reachable s) :
    ∃ noted, Sound I s.object noted ∧ (s.destroyed = true → noted = none) := by
  induction hs with
  | initial hinit =>
      subst hinit
      exact ⟨none, hI.initial, fun _ => rfl⟩
  | @step s s' a hs hstep ih =>
      obtain ⟨noted, hsound, -⟩ := ih
      cases a with
      | call call =>
          simp only [Interface.machine, Interface.step, Option.ite_none_left_eq_some,
            Option.map_eq_some_iff] at hstep
          obtain ⟨-, object, hcall, rfl⟩ := hstep
          obtain ⟨noted', hsound'⟩ := (hI.call _ _ _ _ hsound hcall).1
          exact ⟨noted', hsound', by simp⟩
      | destroy =>
          simp only [Interface.machine, Interface.step, Option.ite_none_left_eq_some,
            Option.some.injEq] at hstep
          obtain ⟨-, rfl⟩ := hstep
          exact ⟨none, hI.destroy _ _ hsound, fun _ => rfl⟩

/-- A lawful class keeps the contract in every use. -/
theorem Lawful.contract (hI : Lawful I) (hs : I.machine.Reachable s) : Contract I s := by
  obtain ⟨noted, hsound, hended⟩ := hI.reachable hs
  refine ⟨?_, ?_, fun marker hmarker => hsound.marked hmarker, ?_, ?_, hsound.accounted.total,
    ⟨hsound.accounted.once, hsound.accounted.apart⟩, hsound.accounted.sound, ?_⟩
  · have hholds := hsound.holds
    cases hholds with
    | vacant halive => simp [halive]
    | occupied halive hlast => simp [halive]
  · intro object type hmem
    have hholds := hsound.holds
    cases hholds with
    | vacant halive => simp [halive] at hmem
    | occupied halive hlast =>
        rw [halive, List.mem_singleton, Prod.mk.injEq] at hmem
        rw [hlast, hmem.1]
  · intro call
    rw [← hI.accepts _ _ call hsound]
    cases hdestroyed : s.destroyed with
    | true => simp [Interface.step, hdestroyed]
    | false => simp [Interface.step, hdestroyed]
  · intro call s' hstep
    simp only [Interface.step, Option.ite_none_left_eq_some, Option.map_eq_some_iff] at hstep
    obtain ⟨-, object, hcall, rfl⟩ := hstep
    exact (hI.call _ _ _ _ hsound hcall).2
  · intro hdestroyed
    obtain rfl := hended hdestroyed
    exact hsound.holds.alive_none

/-! ## The three classes -/

namespace ManualLifetime

variable {s : ManualLifetime} {noted : Option Unit}

theorem sound_iff : Sound manualLifetime s noted ↔
    (if s.engaged then some () else none) = noted ∧ s.storage.Holds noted ∧
      s.storage.Accounted := by
  constructor
  · exact fun h => ⟨h.markers _ List.mem_cons_self, h.holds, h.accounted⟩
  · rintro ⟨hmarker, hholds, haccounted⟩
    exact ⟨by simpa [manualLifetime] using hmarker, hholds, haccounted⟩

theorem reset_sound (h : Sound manualLifetime s noted) :
    Sound manualLifetime s.reset none ∧ s.reset.storage.constructed = s.storage.constructed := by
  obtain ⟨hmarker, hholds, haccounted⟩ := sound_iff.mp h
  rw [sound_iff]
  unfold reset
  cases hengaged : s.engaged with
  | true =>
      obtain rfl : some () = noted := by simpa [hengaged] using hmarker
      exact ⟨⟨rfl, hholds.destroyAs, haccounted.destroyAs hholds⟩, by simp⟩
  | false =>
      obtain rfl : none = noted := by simpa [hengaged] using hmarker
      exact ⟨⟨by simp [hengaged], hholds, haccounted⟩, rfl⟩

theorem emplace_sound (h : Sound manualLifetime s noted) (constructorThrows : Bool) :
    (∃ noted', Sound manualLifetime (s.emplace constructorThrows) noted') ∧
      (s.emplace constructorThrows).storage.alive =
        if constructorThrows then [] else [(s.storage.constructed, ())] := by
  obtain ⟨hreset, hconstructed⟩ := reset_sound h
  have hempty : s.reset.storage.alive = [] := hreset.holds.alive_none
  cases constructorThrows with
  | true => exact ⟨⟨_, hreset⟩, hempty⟩
  | false =>
      obtain ⟨-, hholds, haccounted⟩ := sound_iff.mp hreset
      refine ⟨⟨_, sound_iff.mpr ⟨rfl, hholds.construct (), haccounted.construct ()⟩⟩, ?_⟩
      simp [emplace, hempty, hconstructed]

/-- A factory that throws is as good as a constructor that throws. -/
theorem emplaceFrom_eq (s : ManualLifetime) (factoryThrows constructorThrows : Bool) :
    s.emplaceFrom factoryThrows constructorThrows =
      s.emplace (factoryThrows || constructorThrows) := by
  cases factoryThrows <;> rfl

theorem lawful : Lawful manualLifetime where
  initial := sound_iff.mpr ⟨rfl, Place.holds_empty, Place.accounted_empty⟩
  call := by
    intro s noted call s' h hcall
    cases call with
    | emplace type constructorThrows =>
        cases hcall
        exact emplace_sound h constructorThrows
    | emplaceFrom type factoryThrows constructorThrows =>
        cases hcall
        rw [emplaceFrom_eq]
        exact emplace_sound h (factoryThrows || constructorThrows)
    | reset =>
        cases hcall
        have hreset := (reset_sound h).1
        exact ⟨⟨_, hreset⟩, hreset.holds.alive_none⟩
    | start => cases hcall
  accepts := by
    intro s noted call _
    cases call <;> simp [manualLifetime, ManualLifetime.call]
  destroy := fun s noted h => (reset_sound h).1

end ManualLifetime

namespace ManualVariant

variable [DecidableEq T] {alternatives : List T} {s : ManualVariant T} {noted : Option T}

theorem sound_iff : Sound (manualVariant alternatives) s noted ↔
    s.destroyModel = noted ∧ s.storage.Holds noted ∧ s.storage.Accounted := by
  constructor
  · exact fun h => ⟨h.markers _ List.mem_cons_self, h.holds, h.accounted⟩
  · rintro ⟨hmarker, hholds, haccounted⟩
    exact ⟨by simpa [manualVariant] using hmarker, hholds, haccounted⟩

theorem reset_sound (h : Sound (manualVariant alternatives) s noted) :
    Sound (manualVariant alternatives) s.reset none ∧
      s.reset.storage.constructed = s.storage.constructed := by
  obtain ⟨rfl, hholds, haccounted⟩ := sound_iff.mp h
  rw [sound_iff]
  unfold reset
  cases hmodel : s.destroyModel with
  | none =>
      rw [hmodel] at hholds
      exact ⟨⟨hmodel, hholds, haccounted⟩, rfl⟩
  | some type =>
      rw [hmodel] at hholds
      exact ⟨⟨rfl, hholds.destroyAs, haccounted.destroyAs hholds⟩, by simp⟩

theorem emplace_sound (h : Sound (manualVariant alternatives) s noted) (type : T)
    (constructorThrows : Bool) :
    Sound (manualVariant alternatives) (s.emplace type constructorThrows)
        (if constructorThrows then none else some type) ∧
      (s.emplace type constructorThrows).storage.alive =
        if constructorThrows then [] else [(s.storage.constructed, type)] := by
  obtain ⟨hreset, hconstructed⟩ := reset_sound h
  have hempty : s.reset.storage.alive = [] := hreset.holds.alive_none
  cases constructorThrows with
  | true => exact ⟨hreset, hempty⟩
  | false =>
      obtain ⟨-, hholds, haccounted⟩ := sound_iff.mp hreset
      refine ⟨sound_iff.mpr ⟨rfl, hholds.construct type, haccounted.construct type⟩, ?_⟩
      simp [emplace, hempty, hconstructed]

theorem emplaceFrom_eq (s : ManualVariant T) (type : T) (factoryThrows constructorThrows : Bool) :
    s.emplaceFrom type factoryThrows constructorThrows =
      s.emplace type (factoryThrows || constructorThrows) := by
  cases factoryThrows <;> rfl

variable (alternatives) in
theorem lawful : Lawful (manualVariant alternatives) where
  initial := sound_iff.mpr ⟨rfl, Place.holds_empty, Place.accounted_empty⟩
  call := by
    intro s noted call s' h hcall
    cases call with
    | emplace type constructorThrows =>
        simp only [manualVariant, call, Option.ite_none_right_eq_some, Option.some.injEq] at hcall
        obtain ⟨-, rfl⟩ := hcall
        exact (emplace_sound h type constructorThrows).imp_left fun hsound => ⟨_, hsound⟩
    | emplaceFrom type factoryThrows constructorThrows =>
        simp only [manualVariant, call, Option.ite_none_right_eq_some, Option.some.injEq] at hcall
        obtain ⟨-, rfl⟩ := hcall
        rw [emplaceFrom_eq]
        exact (emplace_sound h type _).imp_left fun hsound => ⟨_, hsound⟩
    | reset =>
        cases hcall
        have hreset := (reset_sound h).1
        exact ⟨⟨_, hreset⟩, hreset.holds.alive_none⟩
    | start => cases hcall
  accepts := by
    intro s noted call _
    cases call <;> simp [manualVariant, ManualVariant.call, Call.constructed]
  destroy := fun s noted h => (reset_sound h).1

end ManualVariant

namespace OperationStorage

variable [DecidableEq T] {operations : List T} {s : OperationStorage T} {noted : Option T}

/-- The storage is sound if the variant inside it is, and `start_` agrees with
`destroy_`. -/
theorem sound_iff : Sound (operationStorage operations) s noted ↔
    s.startModel = noted ∧ Sound (manualVariant operations) s.storage noted := by
  rw [ManualVariant.sound_iff]
  constructor
  · intro h
    refine ⟨h.markers _ List.mem_cons_self, ?_, h.holds, h.accounted⟩
    exact h.markers _ (List.mem_cons_of_mem _ List.mem_cons_self)
  · rintro ⟨hstart, hdestroy, hholds, haccounted⟩
    exact ⟨by simpa [operationStorage] using ⟨hstart, hdestroy⟩, hholds, haccounted⟩

theorem reset_sound (h : Sound (operationStorage operations) s noted) :
    Sound (operationStorage operations) s.reset none ∧
      s.reset.storage.storage.constructed = s.storage.storage.constructed := by
  obtain ⟨hreset, hconstructed⟩ := ManualVariant.reset_sound (sound_iff.mp h).2
  exact ⟨sound_iff.mpr ⟨rfl, hreset⟩, hconstructed⟩

theorem emplaceFrom_sound (h : Sound (operationStorage operations) s noted) (type : T)
    (factoryThrows constructorThrows : Bool) :
    (∃ noted', Sound (operationStorage operations)
        (s.emplaceFrom type factoryThrows constructorThrows) noted') ∧
      (s.emplaceFrom type factoryThrows constructorThrows).storage.storage.alive =
        if factoryThrows || constructorThrows then []
        else [(s.storage.storage.constructed, type)] := by
  obtain ⟨hreset, hconstructed⟩ := reset_sound h
  obtain ⟨hsound, halive⟩ := ManualVariant.emplace_sound (sound_iff.mp hreset).2 type
    (factoryThrows || constructorThrows)
  rw [hconstructed] at halive
  simp only [emplaceFrom, ManualVariant.emplaceFrom_eq]
  cases hthrows : factoryThrows || constructorThrows with
  | true =>
      rw [hthrows] at hsound halive
      exact ⟨⟨none, sound_iff.mpr ⟨rfl, hsound⟩⟩, halive⟩
  | false =>
      rw [hthrows] at hsound halive
      exact ⟨⟨some type, sound_iff.mpr ⟨rfl, hsound⟩⟩, halive⟩

/-- `start` runs on the operation that is alive. -/
theorem start_sound (h : Sound (operationStorage operations) s noted) {s' : OperationStorage T}
    (hstart : s.start = some s') :
    Sound (operationStorage operations) s' noted ∧
      ∃ object type, s.startModel = some type ∧ s.storage.storage.alive = [(object, type)] ∧
        s'.storage.storage =
          { s.storage.storage with used := object :: s.storage.storage.used } := by
  obtain ⟨hmodel, hvariant⟩ := sound_iff.mp h
  obtain ⟨hdestroy, hholds, haccounted⟩ := ManualVariant.sound_iff.mp hvariant
  unfold start at hstart
  split at hstart
  next => cases hstart
  next type htype =>
    cases hstart
    obtain rfl : some type = noted := htype.symm.trans hmodel
    obtain ⟨object, halive, huse⟩ := hholds.useAs_eq
    refine ⟨?_, object, type, htype, halive, huse⟩
    rw [sound_iff, ManualVariant.sound_iff]
    exact ⟨htype, hdestroy, hholds.useAs, haccounted.useAs hholds⟩

variable (operations) in
theorem lawful : Lawful (operationStorage operations) where
  initial := by
    rw [sound_iff, ManualVariant.sound_iff]
    exact ⟨rfl, rfl, Place.holds_empty, Place.accounted_empty⟩
  call := by
    intro s noted call s' h hcall
    cases call with
    | emplace type constructorThrows => cases hcall
    | emplaceFrom type factoryThrows constructorThrows =>
        simp only [operationStorage, call, Option.ite_none_right_eq_some,
          Option.some.injEq] at hcall
        obtain ⟨-, rfl⟩ := hcall
        exact emplaceFrom_sound h type factoryThrows constructorThrows
    | reset =>
        cases hcall
        have hreset := (reset_sound h).1
        exact ⟨⟨_, hreset⟩, hreset.holds.alive_none⟩
    | start =>
        obtain ⟨hsound, object, type, -, halive, hused⟩ := start_sound h hcall
        refine ⟨⟨_, hsound⟩, ?_⟩
        change s'.storage.storage.alive = s.storage.storage.alive
        rw [hused]
  accepts := by
    intro s noted call h
    obtain ⟨hmodel, hvariant⟩ := sound_iff.mp h
    have halive : s.start.isSome ↔ s.storage.storage.alive ≠ [] := by
      have hholds := hvariant.holds
      change s.storage.storage.Holds noted at hholds
      unfold start
      cases hholds with
      | vacant hvacant => simp [hmodel, hvacant]
      | occupied hoccupied => simp [hmodel, hoccupied]
    cases call <;>
      simp [operationStorage, OperationStorage.call, Call.constructed, Call.isEmplace, halive]
  destroy := by
    intro s noted h
    have hreset := sound_iff.mp (reset_sound h).1
    exact sound_iff.mpr ⟨hreset.1, (ManualVariant.reset_sound hreset.2).1⟩

end OperationStorage

/-- The three classes keep their contracts, and `start` runs the start function of
the operation that is alive. -/
theorem storage_contract [DecidableEq T] (alternatives : List T) :
    (∀ s, manualLifetime.machine.Reachable s → Contract manualLifetime s) ∧
      (∀ s, (manualVariant alternatives).machine.Reachable s →
        Contract (manualVariant alternatives) s) ∧
      ∀ s, (operationStorage alternatives).machine.Reachable s →
        Contract (operationStorage alternatives) s ∧
          ∀ s', (operationStorage alternatives).step s (.call .start) = some s' →
            ∃ object type, s.object.startModel = some type ∧
              s.object.storage.storage.alive = [(object, type)] ∧
              s'.object.storage.storage.used = object :: s.object.storage.storage.used := by
  refine ⟨fun s => ManualLifetime.lawful.contract,
    fun s => (ManualVariant.lawful alternatives).contract, ?_⟩
  intro s hs
  have hlawful := OperationStorage.lawful alternatives
  refine ⟨hlawful.contract hs, ?_⟩
  intro s' hstep
  obtain ⟨noted, hsound, -⟩ := hlawful.reachable hs
  simp only [Interface.step, Option.ite_none_left_eq_some, Option.map_eq_some_iff] at hstep
  obtain ⟨-, object, hcall, rfl⟩ := hstep
  obtain ⟨-, started, type, hmodel, halive, hused⟩ := OperationStorage.start_sound hsound hcall
  exact ⟨started, type, hmodel, halive, by rw [hused]⟩

/-- An operation is replaced after it was started: the first attempt throws. -/
def replacedRun : List (Action Bool) :=
  List.flatten [[.call (.emplaceFrom true false false), .call .start],
    [.call (.emplaceFrom false false true), .call (.emplaceFrom false false false)]]

theorem replaced_runs : ((operationStorage [true, false]).machine.exec
    ⟨.initial, false⟩ replacedRun).isSome = true := by decide

theorem storage_contract_replacedRun : ∃ s : State (OperationStorage Bool),
    s.object.startModel = some false ∧ s.object.storage.storage.destroyed = [0] ∧
      ((operationStorage [true, false]).step s (.call .start)).isSome := by
  have hreach := Machine.reachable_replay (M := (operationStorage [true, false]).machine)
    (rfl : (⟨.initial, false⟩ : State (OperationStorage Bool)) = _) replacedRun replaced_runs
  obtain ⟨hcontract, -⟩ := (storage_contract [true, false]).2.2 _ hreach
  have hmarked := hcontract.marked OperationStorage.startModel List.mem_cons_self false
  have haccepted := hcontract.accepted .start
  exact ⟨_, hmarked.mpr ⟨1, by decide⟩, by decide,
    haccepted.mpr ⟨by decide, ⟨id, by decide⟩, fun _ => by decide⟩⟩

end Bexec.InPlace
