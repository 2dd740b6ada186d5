import Dialogue.Proofs.LeastExponents
import Dialogue.Proofs.SessionSafety
import Dialogue.Proofs.WordlessNumbers

/-! Flattening and copying end, and leave no list busy that was not. Planning a copy goes into lists as readings do;
making it adds objects and nothing else. What a copy shares with its source lies within reach of the source. They end
with a result or an anomaly, unless some number has no text or the text to read as a number or a truth value marks the
least exponent of 64 bits. -/

namespace Dialogue

mutual
/-- Whether what a copy shares lies in a region. -/
def Copy.SharesIn (region : Ref → Prop) : Copy → Prop
  | .value _ => True
  | .list items => Copy.AllShareIn region items
  | .keep slot => region slot.target

def Copy.AllShareIn (region : Ref → Prop) : List Copy → Prop
  | [] => True
  | copy :: rest => Copy.SharesIn region copy ∧ Copy.AllShareIn region rest
end

namespace Copy

variable {region : Ref → Prop} {copies : List Copy}

theorem allShareIn_iff : AllShareIn region copies ↔ ∀ copy ∈ copies, copy.SharesIn region := by
  induction copies with
  | nil => simp [AllShareIn]
  | cons copy rest ih => rw [AllShareIn, ih, List.forall_mem_cons]

end Copy

namespace World

variable {world after : World} {region : Ref → Prop} {list ref : Ref}

/-- Whether the elements of lists in a region lie in it, and new objects too. -/
structure Closed (world : World) (region : Ref → Prop) : Prop where
  new : ∀ ref, world.heap.size ≤ ref → region ref
  slots : ∀ {list slot}, region list → slot ∈ world.slots list → region slot.target

theorem closed_everything : world.Closed fun _ => True := ⟨fun _ _ => trivial, fun _ _ => trivial⟩

theorem Closed.setBusy {busy : Bool} (closed : world.Closed region) : (world.setBusy list busy).Closed region :=
  ⟨fun ref fresh => closed.new ref (heap_size_change ▸ fresh), fun inside member => closed.slots inside (slots_setBusy ▸ member)⟩

theorem Undisturbed.closed (undisturbed : world.Undisturbed after) (closed : world.Closed region) :
    after.Closed region :=
  ⟨fun ref fresh => closed.new ref (undisturbed.size ▸ fresh),
    fun inside member => closed.slots inside (undisturbed.slots ▸ member)⟩

end World

namespace Act

open World

variable {α : Type} {world : World} {region : Ref → Prop} {ref list object : Ref} {config : Config} {plan : Ref → Act Copy}

/-! Planning. -/

/-- Copies of slots can be planned where copies of what they refer to can be, one after the other. -/
theorem meets_mapM_planSlot {slots : List Slot} (within : ∀ slot ∈ slots, region slot.target)
    (plans : ∀ slot ∈ slots, ∀ inner, world.Undisturbed inner →
      Meets quiet (plan slot.target) inner fun copy _ => copy.SharesIn region) :
    Meets quiet (slots.mapM (planSlot plan)) world fun copies _ => ∀ copy ∈ copies, copy.SharesIn region := by
  refine .mapM (Copy.SharesIn region) fun slot inside inner went => ?_
  have planned := plans slot inside inner went
  rcases slot with element | ⟨target, name⟩
  · exact planned
  · refine .look ?_
    split
    next => exact planned
    next => exact .pure (within _ inside)

/-- The copies of the slots of a list can be planned where its elements can be while it is busy. -/
private theorem meets_planSlots (ordered : world.Ordered) (closed : world.Closed region) (within : region list)
    (plans : ∀ ref inner, inner.Ordered → inner.Closed region → inner.heap.size = world.heap.size →
      inner.idle.card < world.idle.card → region ref → Meets quiet (plan ref) inner fun copy _ => copy.SharesIn region) :
    Meets quiet (planSlots plan list) world fun copies _ => ∀ copy ∈ copies, copy.SharesIn region := by
  refine .look (.look ?_)
  split
  next =>
    refine .pure fun copy member => ?_
    obtain ⟨slot, inside, rfl⟩ := List.mem_map.mp member
    exact closed.slots within inside
  next free =>
    have free := Bool.not_eq_true _ ▸ free
    have near : ∀ slot ∈ world.slots list, region slot.target := fun _ => closed.slots within
    refine .quiet_whileBusy free (meets_mapM_planSlot near fun slot inside inner went => ?_)
    obtain ⟨still, size, fewer⟩ := went.entered ordered free (slots_setBusy.symm ▸ inside)
    exact plans slot.target inner still (went.closed closed.setBusy) size fewer (near slot inside)

private theorem meets_planWithin (fuel : Nat) (ordered : world.Ordered) (closed : world.Closed region)
    (within : world.kindOf ref ≠ .var → region ref) (enough : world.idle.card < fuel) :
    Meets quiet (planWithin fuel config ref) world fun copy _ => copy.SharesIn region := by
  induction fuel generalizing world ref with
  | zero => exact absurd enough (Nat.not_lt_zero _)
  | succ fuel ih =>
    refine .look ?_
    split
    next => exact (meets_value ordered).bind fun _ _ _ _ => .pure trivial
    next isList =>
      have near : region ref := within (by rw [isList]; exact nofun)
      refine .look ?_
      split
      next => exact Meets.aliasOf.bind fun slot _ _ ⟨_, same⟩ => .pure (same ▸ near : region slot.target)
      next =>
        have planned : Meets quiet (planSlots (planWithin fuel config) ref) world _ := meets_planSlots ordered closed near
          fun ref inner ordered closed _ fewer near => ih ordered closed (fun _ => near) (by omega)
        exact planned.bind fun _ _ _ all => .pure (Copy.allShareIn_iff.mpr all)
    next other _ =>
      exact Meets.reference.bind fun slot _ _ ⟨_, same⟩ => .pure (same ▸ within other : region slot.target)

/-- Every copy can be planned. Copies of variables share nothing. -/
theorem meets_plan (ordered : world.Ordered) (closed : world.Closed region)
    (within : world.kindOf ref ≠ .var → region ref) :
    Meets quiet (Act.plan config ref) world fun copy _ => copy.SharesIn region :=
  .look (meets_planWithin _ ordered closed within (Nat.lt_succ_of_le card_idle_le))

theorem meets_planSlots_plan (ordered : world.Ordered) (closed : world.Closed region) (within : region list) :
    Meets quiet (planSlots (Act.plan config) list) world fun copies _ => ∀ copy ∈ copies, copy.SharesIn region :=
  meets_planSlots ordered closed within fun _ _ ordered closed _ _ within => meets_plan ordered closed fun _ => within

/-! Making what was planned. -/

/-- Leaves the same lists busy, and stops for nothing but anomalies, or for an overflow where there may be one. -/
def steady (overflows : Prop) : Guarantee where
  keeps world after := ∀ list, after.isBusy list = world.isBusy list
  allows _ stop := (∃ anomaly, stop = .anomaly anomaly) ∨ stop = .fault .overflow ∧ overflows
  refl _ _ := rfl
  trans first second list := (second list).trans (first list)
  earlier _ allowed := allowed
  anomalies := .inl exists_anomaly

theorem Meets.steady {act : Act α} {result : α → World → Prop} {overflows : Prop} (meets : Meets quiet act world result)
    (voiced : Meets (voiced config) act world fun _ _ => True) (wordless : world.Wordless config → overflows) :
    Meets (steady overflows) act world result := by
  unfold Meets
  split
  next ran =>
    obtain ⟨kept, done⟩ := meets.of_ok ran
    exact ⟨fun _ => Undisturbed.isBusy kept, done⟩
  next stopped =>
    obtain ⟨kept, allowed⟩ := meets.of_error stopped
    refine ⟨fun _ => Undisturbed.isBusy kept, allowed.imp_right fun same => ⟨same, wordless ?_⟩⟩
    exact (voiced.of_error stopped).2 same

variable {overflows : Prop}

private theorem meets_add {made : Object} (idle : made.isBusy = false) :
    Meets (steady overflows) (add made) world fun _ _ => True :=
  ⟨fun _ => isBusy_add idle, trivial⟩

private theorem meets_addValue {name : String} {value : Scalar} :
    Meets (steady overflows) (addValue name value) world fun _ _ => True :=
  meets_add rfl

private theorem meets_addList {slots : List Slot} :
    Meets (steady overflows) (add { name := "", body := .list { slots } }) world fun _ _ => True :=
  meets_add rfl

mutual
private theorem meets_make {world : World} : ∀ copy : Copy, Meets (steady overflows) (make copy) world fun _ _ => True
  | .value _ => meets_addValue.bind fun _ _ _ _ => .pure trivial
  | .list items => (meets_makeAll items).bind fun _ _ _ _ => meets_addList.bind fun _ _ _ _ => .pure trivial
  | .keep _ => .pure trivial

theorem meets_makeAll {world : World} :
    ∀ copies : List Copy, Meets (steady overflows) (makeAll copies) world fun _ _ => True
  | [] => .pure trivial
  | copy :: rest => (meets_make copy).bind fun _ _ _ _ => (meets_makeAll rest).bind fun _ _ _ _ => .pure trivial
end

private theorem meets_extend {slots : List Slot} : Meets (steady overflows) (extend list slots) world fun _ _ => True :=
  .update (fun _ => isBusy_changeSlots) trivial

private theorem steady_planSlots (ordered : world.Ordered) :
    Meets (steady (world.Wordless config)) (planSlots (Act.plan config) list) world fun _ _ => True :=
  Meets.steady (meets_planSlots_plan ordered closed_everything trivial).forget voiced_planSlots_plan id

private theorem meets_duplicateList (ordered : world.Ordered) :
    Meets (steady (world.Wordless config)) (duplicateList config list) world fun _ _ => True :=
  (steady_planSlots ordered).bind fun copies _ _ _ => (meets_makeAll copies).bind fun _ _ _ _ => meets_addList

theorem meets_append (ordered : world.Ordered) {other : Ref} :
    Meets (steady (world.Wordless config)) (append list other config) world fun _ _ => True := by
  apply Meets.requireChangeable.bind
  rintro _ after - ⟨rfl, -⟩
  apply (steady_planSlots ordered).bind
  intro copies _ _ _
  apply Meets.requireRoom.bind
  intro _ _ _ _
  exact (meets_makeAll copies).bind fun _ _ _ _ => meets_extend

private theorem meets_push (ordered : world.Ordered) :
    Meets (steady (world.Wordless config)) (push list object config) world fun _ _ => True := by
  apply Meets.requireChangeable.bind
  rintro _ after - ⟨rfl, -⟩
  apply Meets.requireRoom.bind
  rintro _ _ - rfl
  have plans : Meets quiet (Act.plan config object) _ _ := meets_plan ordered closed_everything fun _ => trivial
  have copies : Meets (steady (World.Wordless _ config)) (copy config object) _ fun _ _ => True :=
    (plans.steady voiced_plan id).bind fun planned _ _ _ => meets_make planned
  apply copies.bind
  intro slot _ _ _
  exact meets_extend.bind fun _ _ _ _ => Meets.element.forget

/-- What computes with the value of an object. -/
private theorem steady_compute {β : Type} {found : Scalar → Except (Failure Cause) β} (ordered : world.Ordered) :
    Meets (steady (world.Wordless config ∨
        ∃ read after, value config ref world = .ok read after ∧ found read = .error .overflow))
      (do Act.compute (found (← value config ref))) world fun _ _ => True := by
  have reads {overflows : Prop} (wordless : world.Wordless config → overflows) :
      Meets (steady overflows) (value config ref) world fun _ _ => True := (meets_value ordered).steady voiced_value.forget wordless
  refine (reads .inl).with_ran.bind ?_
  rintro read after - ⟨ran, -⟩
  exact .compute (fun overflows => .inr ⟨rfl, .inr ⟨read, after, ran, overflows⟩⟩) fun _ _ => trivial

end Act

namespace World

variable {world : World} {config : Config} {object : Ref}

/-- An act has a result or stops for an anomaly, or for an overflow where there may be one, and leaves just those
lists busy that were. -/
def Ends {α : Type} (world : World) (overflows : Prop) (act : Act α) : Prop :=
  (∀ stop after, act world = .error stop after →
    (∃ anomaly, stop = .anomaly anomaly) ∨ stop = .fault .overflow ∧ overflows) ∧
  ∀ list, (Act.leaves act world).isBusy list = world.isBusy list

theorem ends_of_meets {α : Type} {overflows : Prop} {act : Act α} {result : α → World → Prop}
    (meets : Act.Meets (Act.steady overflows) act world result) : world.Ends overflows act :=
  ⟨fun _ _ stopped => (meets.of_error stopped).2, meets.keeps_leaves⟩

theorem Ends.mono {α : Type} {act : Act α} {overflows more : Prop} (ends : world.Ends overflows act)
    (implies : overflows → more) : world.Ends more act :=
  ⟨fun stop after stopped => (ends.1 stop after stopped).imp_right fun ⟨same, here⟩ => ⟨same, implies here⟩, ends.2⟩

/-- The value of an object is a text that marks the least exponent of 64 bits. -/
def MarksLeast (world : World) (config : Config) (object : Ref) : Prop :=
  ∃ value after, Act.value config object world = .ok value after ∧ value.MarksLeast config

/-- A value that is read as a number or a truth value. -/
private theorem ends_reading {β : Type} {found : Scalar → Except (Failure Cause) β} (ordered : world.Ordered)
    (least : ∀ {value}, found value = .error .overflow ↔ value.MarksLeast config) :
    world.Ends (world.Wordless config ∨ world.MarksLeast config object)
      (do Act.compute (found (← Act.value config object))) := by
  refine (ends_of_meets (Act.steady_compute ordered)).mono (.imp_right ?_)
  rintro ⟨value, after, read, overflows⟩
  exact ⟨value, after, read, least.mp overflows⟩

theorem MarksLeast.overflows {β : Type} {found : Scalar → Except (Failure Cause) β}
    (marks : world.MarksLeast config object)
    (least : ∀ {value}, found value = .error .overflow ↔ value.MarksLeast config) :
    ∃ after, (do Act.compute (found (← Act.value config object)) : Act β) world = .error (.fault .overflow) after := by
  obtain ⟨value, after, read, marked⟩ := marks
  refine ⟨after, (Act.bind_of_ok read).trans ?_⟩
  rw [least.mpr marked]
  rfl

/-- Whatever lists contain, themselves or variables that show them included, and whichever are busy already:
flattening and copying end. Only a number without a text makes them overflow. A text that is read as a number or a
truth value overflows too if it marks the least exponent of 64 bits, and then it does. -/
theorem flatten_and_copy_end (ongoing : world.Ongoing) (config : Config) (list object : Ref) :
    world.Ends (world.Wordless config) (Act.flatten config list) ∧
    world.Ends (world.Wordless config) (Act.textOf config object) ∧
    world.Ends (world.Wordless config ∨ world.MarksLeast config object) (Act.numberOf config object) ∧
    world.Ends (world.Wordless config ∨ world.MarksLeast config object) (Act.truthOf config object) ∧
    world.Ends (world.Wordless config) (Act.value config object) ∧
    world.Ends (world.Wordless config) (Act.duplicateList config list) ∧
    world.Ends (world.Wordless config) (Act.append list object config) ∧
    world.Ends (world.Wordless config) (Act.push list object config) ∧
    (world.MarksLeast config object → (∃ after, Act.numberOf config object world = .error (.fault .overflow) after) ∧
      ∃ after, Act.truthOf config object world = .error (.fault .overflow) after) := by
  have ordered := ongoing.sound.ordered
  refine ⟨?_, ?_, ends_reading ordered Scalar.asNumber_overflow_iff, ends_reading ordered Scalar.asTruth_overflow_iff, ?_,
    ?_, ?_, ?_, fun marks => ?_⟩
  · exact ends_of_meets ((Act.meets_flatten ordered).steady Act.voiced_flatten id)
  · exact ends_of_meets ((Act.meets_textOf ordered).steady Act.voiced_textOf id)
  · exact ends_of_meets ((Act.meets_value ordered).steady Act.voiced_value.forget id)
  · exact ends_of_meets (Act.meets_duplicateList ordered)
  · exact ends_of_meets (Act.meets_append ordered)
  · exact ends_of_meets (Act.meets_push ordered)
  · exact ⟨marks.overflows Scalar.asNumber_overflow_iff, marks.overflows Scalar.asTruth_overflow_iff⟩

/-- Two lists that hold each other. The first one also contains itself and a variable that shows its text. -/
def circular : World :=
  (World.runAll {} [
    { action := .create (.list "outer"), name := some "o" },
    { action := .create (.list "inner"), name := some "i" },
    { action := .object (.cast .var), target := some "o", name := some "v" },
    { action := .list (.pushItself (.handle "o")), target := some "o" },
    { action := .list (.pushItself (.handle "v")), target := some "o" },
    { action := .list (.pushItself (.handle "i")), target := some "o" },
    { action := .list (.pushItself (.handle "o")), target := some "i" }]).2

private theorem worded_circular : circular.Worded {} := by
  have size : circular.heap.size = 3 := by decide +kernel
  refine ⟨fun {ref number} found => ?_, fun list => ?_, by decide, by decide +kernel, by decide +kernel, ⟨?_, by decide⟩⟩
  · have none : ∀ ref < 3, (circular.storage? ref).bind Storage.kept? = none := by decide +kernel
    obtain ⟨storage, stored, -⟩ := Option.bind_eq_some_iff.mp found
    have old := lt_size_of_isLive (isLive_of_content? (content?_eq_some_var.mpr stored))
    rw [none ref (size ▸ old)] at found
    cases found
  · have short : ∀ list < 3, (circular.length list : Int) < Limits.integerBound := by decide +kernel
    rcases Nat.lt_or_ge list 3 with inside | beyond
    · exact short list inside
    · rw [length, slots_eq_nil_of_size_le (size ▸ beyond)]
      decide
  · exact ⟨"3.14159265358979323846264", by decide +kernel⟩

theorem flatten_and_copy_end_circular :
    circular.Ongoing ∧ circular.length 0 = 3 ∧ circular.Ends False (Act.flatten {} 0) ∧
      circular.Ends False (Act.duplicateList {} 0) ∧ circular.Ends False (Act.push 0 1 {}) := by
  have ongoing : circular.Ongoing := Reachable.ongoing (.runAll (.start {}) _)
  have ends := flatten_and_copy_end ongoing {} 0 1
  have worded := worded_circular.not_wordless
  exact ⟨ongoing, by decide +kernel, ends.1.mono worded, ends.2.2.2.2.2.1.mono worded, ends.2.2.2.2.2.2.2.1.mono worded⟩

/-- A list whose only element is a text with the least exponent of 64 bits. -/
def leastListed : World :=
  (World.runAll {} [
    { action := .create (.list "l"), name := some "l" },
    { action := .list (.push (.value (.text "1e-9223372036854775808"))), target := some "l" }]).2

/-- The list is neither read as a number or a truth value nor refused for an anomaly. -/
theorem number_lost_to_least_exponent :
    leastListed.Ongoing ∧ Act.stop? (Act.numberOf {} 0) leastListed = some (.fault .overflow) ∧
      Act.stop? (Act.truthOf {} 0) leastListed = some (.fault .overflow) ∧ ¬leastListed.Ends False (Act.numberOf {} 0) := by
  have stopped : Act.stop? (Act.numberOf {} 0) leastListed = some (.fault .overflow) := by decide +kernel
  refine ⟨Reachable.ongoing (.runAll (.start {}) _), stopped, by decide +kernel, fun ends => ?_⟩
  unfold Act.stop? at stopped
  cases ran : Act.numberOf {} 0 leastListed with
  | ok number after =>
    rw [ran] at stopped
    cases stopped
  | error stop after =>
    rw [ran] at stopped
    obtain rfl := Option.some.inj stopped
    obtain ⟨anomaly, same⟩ | ⟨-, never⟩ := ends.1 _ after ran
    · cases same
    · exact never

end World

end Dialogue
