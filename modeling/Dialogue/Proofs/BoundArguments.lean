import Dialogue.Proofs.AssignedContents
import Dialogue.Proofs.FailedStores
import Dialogue.Proofs.LookupFootprint

/-! Arguments that are bound. The input of an operator is emptied before the argument is read, so it holds the one value
that the argument shows then. That is the value of the call wherever nothing that the argument is worked out from was in
the input, or went with it. -/

namespace Dialogue

namespace World

open Act

variable {world after : World} {ref list argument scope : Ref} {name : String} {config : Config} {value other : Scalar}

/-- The world in which running code holds a list that it has emptied. -/
def emptied (world : World) (list : Ref) : World := leaves (truncate list 0) { world with inUse := list :: world.inUse }

/-- The input holds the argument and nothing else: the value that a variable shows, in a new variable, or else the
object itself. -/
def Bound (config : Config) (world shown : World) (list argument : Ref) (after : World) : Prop :=
  ∃ slot, after.slots list = [slot] ∧
    (world.kindOf argument = .var → ∃ copy value, slot = .held copy ∧ world.heap.size ≤ copy ∧
      after.storage? copy = some (.stored value) ∧ shown.HasValue config argument value) ∧
    (world.kindOf argument ≠ .var → slot.target = argument)

/-- A call binds the argument as it was, or fails and leaves the input as it was. -/
def Captures (config : Config) (world : World) (list argument : Ref) (result : EStateM.Result Stop World Unit) : Prop :=
  match result with
  | .ok _ after => world.Bound config world list argument after
  | .error _ after => after.slots list = world.slots list

/-- A call binds the argument as it is once the input is empty, or fails because that has no value, and leaves the input
empty. -/
def BindsEmptied (config : Config) (world cleared : World) (list argument : Ref)
    (result : EStateM.Result Stop World Unit) : Prop :=
  match result with
  | .ok _ after => world.Bound config cleared list argument after
  | .error _ after => after.slots list = [] ∧ world.kindOf argument = .var ∧
      ∀ value, ¬ cleared.HasValue config argument value

theorem HasValue.unique (first : world.HasValue config argument value) (second : world.HasValue config argument other) :
    value = other := by
  obtain ⟨after, ran⟩ := first
  obtain ⟨last, again⟩ := second
  exact (EStateM.Result.ok.inj (ran.symm.trans again)).1

/-- Making a built-in member touches nothing but its scope. -/
private theorem touches_materialize (forest : world.Forest) :
    Touches (· = scope) world (world.materialize scope name) := by
  have looked : world.LookedUp scope name (world.materialize scope name) := lookedUp_materialize forest
  rcases looked with same | ⟨builtin, -, -, -, made⟩
  · rw [same]
    exact .refl
  · refine ⟨made.size ▸ Nat.le_succ _, fun ref old object found => ?_⟩
    by_cases here : ref = scope
    · subst here
      rw [made.entered] at found
      obtain ⟨⟨name, body, constant, parent⟩, before, rfl⟩ := Option.map_eq_some_iff.mp found
      exact ⟨_, before, by cases body <;> rfl, by cases body <;> rfl, fun outside => absurd rfl outside⟩
    · rw [made.others ref here old.ne] at found
      exact ⟨object, found, rfl, rfl, fun _ => rfl⟩

theorem Touches.members {region : Ref → Prop} (touches : Touches region world after) (old : ref < world.heap.size)
    (outside : ¬ region ref) (live : after.isLive ref = true) : after.members ref = world.members ref := by
  obtain ⟨⟨_, body, _, _⟩, ⟨_, former, _, _⟩, later, before, same⟩ := touches.essence old outside live
  rw [World.members, World.members, scope?_eq, scope?_eq, later, before]
  cases body <;> cases former <;> simp_all [Object.essence, Object.scope?]

end World

namespace Act

open World

variable {α : Type} {world after opened : World} {list operator argument : Ref} {config : Config} {stop : Stop}
  {value : Scalar} {refs : List Ref}

private theorem holding_eq {act : Act α} : holding refs act world =
    match act { world with inUse := refs ++ world.inUse } with
    | .ok value after => .ok value (after.settle world.inUse)
    | .error stop after => .error stop (after.settle world.inUse) := by
  unfold holding lettingGo
  rw [update_bind]
  cases act { world with inUse := refs ++ world.inUse } <;> rfl

/-- The list that an operator has for its input is a member of it. -/
private theorem input_ok (found : input operator world = .ok list opened) :
    opened = world.materialize operator Builtin.input.memberName ∧
      (opened.members operator).find? Builtin.input.memberName = some list ∧ opened.kindOf list = .list := by
  unfold input listMember at found
  obtain ⟨member, middle, looked, found⟩ := bind_ok_iff.mp found
  obtain ⟨known, rfl⟩ : ((world.materialize operator Builtin.input.memberName).members operator).find?
      Builtin.input.memberName = member ∧ world.materialize operator Builtin.input.memberName = middle :=
    EStateM.Result.ok.inj looked
  cases member with
  | none => cases found
  | some member =>
    obtain ⟨_, last, required, found⟩ := bind_ok_iff.mp found
    obtain ⟨rfl, isList⟩ := ((Meets.requireKind : Meets anything _ _ _).of_ok required).2
    obtain ⟨rfl, rfl⟩ := EStateM.Result.ok.inj found
    exact ⟨rfl, known, by simpa using isList⟩

/-- An input that has been made before is found, and nothing else happens. -/
private theorem input_of_member (forest : world.Forest)
    (found : (world.members operator).find? Builtin.input.memberName = some list) (isList : world.kindOf list = .list) :
    input operator world = .ok list world := by
  have looked : member? operator Builtin.input.memberName world = .ok (some list) world := by
    have same : world.materialize operator Builtin.input.memberName = world :=
      materialize_of_settled fun _ named => forest.claims named found
    change EStateM.Result.ok (((world.materialize operator Builtin.input.memberName).members operator).find? _)
      (world.materialize operator Builtin.input.memberName) = _
    rw [same, found]
  have listed : requireList list world = .ok () world := by
    change (if (world.kindOf list == .list) = true then _ else _ : Act Unit) world = _
    rw [isList]
    rfl
  rw [input, listMember, bind_of_ok looked]
  exact bind_of_ok listed

/-- The list once it is empty. -/
structure Empties (world : World) (list : Ref) (after : World) : Prop where
  ran : truncate list 0 { world with inUse := list :: world.inUse } = .ok () after
  sound : after.Sound
  follows : Follows .burying { world with inUse := list :: world.inUse } after
  touches : Touches (· = list) world after
  slots : after.slots list = []

theorem empties (sound : world.Sound) (isList : world.kindOf list = .list) :
    Empties world list (world.emptied list) := by
  have start : Follows .gentle world { world with inUse := [list] ++ world.inUse } :=
    follows_use sound (by simpa using isLive_of_isList isList)
  have soundStart := start.sound sound
  have cuts : Gives (truncate list 0) { world with inUse := [list] ++ world.inUse } _ :=
    gives_truncate_take soundStart List.mem_cons_self isList
  obtain ⟨⟨⟩, after, ran, touches, slots⟩ := cuts
  have same : after = world.emptied list := by
    change truncate list 0 { world with inUse := list :: world.inUse } = _ at ran
    rw [emptied, leaves, ran]
  subst same
  obtain ⟨follows, -⟩ := safe_truncate.of_ok soundStart ran
  exact ⟨ran, follows.sound soundStart, follows, touches_withInUse.trans touches, slots⟩

/-- A list is resized to nothing as it is emptied. -/
private theorem resize_zero (changeable : world.isConstant list = false) :
    resize list 0 config world = truncate list 0 world := by
  unfold resize
  rw [if_neg (by decide)]
  change (requireChangeable list >>= _) world = _
  rw [bind_of_ok (requireChangeable_of_changeable changeable), see_bind]
  split
  next empty =>
    have none : world.slots list = [] := List.eq_nil_of_length_eq_zero (Nat.le_zero.mp empty)
    have cut : truncate list 0 world = .ok () ((world.changeSlots list (·.take 0)).releaseAll []) := by
      rw [truncate, see_bind, none]
      rfl
    rw [show Int.toNat 0 - world.length list = 0 from Nat.zero_sub _, cut, changeSlots_eq_self (by simp [none])]
    change EStateM.Result.ok () (world.changeSlots list (· ++ [])) = _
    rw [changeSlots_append_nil]
    rfl
  next => rfl

/-- What an act that let go of everything leaves of a list that a member holds. -/
theorem settled (sound : after.Sound) (used : world.inUse <:+ after.inUse) (member : operator ∈ world.inUse)
    (found : (world.members operator).find? name = some list) (touches : Touches (· = list) world after)
    (apart : operator ≠ list) (old : operator < world.heap.size) (listed : list < after.heap.size) :
    (after.settle world.inUse).Sound ∧ (after.settle world.inUse).slots list = after.slots list ∧
      ∀ copy, .held copy ∈ after.slots list → copy ≠ list → ∀ value, after.storage? copy = some (.stored value) →
        (after.settle world.inUse).storage? copy = some (.stored value) := by
  have evolves : World.Evolves .releasing after (after.settle ([] ++ world.inUse)) := evolves_settle sound (by simp) used
  have soundAfter := evolves.sound sound
  have holds : (after.settle world.inUse).isLive operator = true := soundAfter.inUse (inUse_settle ▸ member)
  have members := (touches.trans touches_settle).members old apart holds
  have live : (after.settle world.inUse).isLive list = true := soundAfter.isLive_of_member (members ▸ found)
  have slots := evolves.slots_of_isLive listed live
  refine ⟨soundAfter, slots, fun copy stored other value shows => ?_⟩
  have survives := (soundAfter.knows (slots ▸ stored)).held copy rfl
  exact (touches_settle : Touches (· = list) after _).stored other shows survives

/-! What is put into a list that is empty. -/

section Push

variable {object : Ref} {slot : Slot} {copied : Act Slot}

private theorem plan_of_var (isVar : world.kindOf object = .var) :
    plan config object world = (do return Copy.value (← Act.value config object) : Act Copy) world := by
  change planWith (planWithin world.heap.size config) config object world = _
  rw [planWith, see_bind, isVar]

private theorem copy_of_value (isVar : world.kindOf object = .var)
    (ran : Act.value config object world = .ok value after) :
    copy config object world = .ok (.held after.heap.size) (after.add { name := "", body := .var (.stored value) }) := by
  have planned : plan config object world = .ok (.value value) after := (plan_of_var isVar).trans (bind_of_ok ran)
  exact bind_of_ok planned

private theorem copy_of_stop (isVar : world.kindOf object = .var)
    (ran : Act.value config object world = .error stop after) :
    copy config object world = .error stop after :=
  bind_of_error ((plan_of_var isVar).trans (bind_of_error ran))

/-- What is neither a variable nor a list is not copied. -/
private theorem gives_copy_other (config : Config) (notVar : world.kindOf object ≠ .var)
    (notList : world.kindOf object ≠ .list) :
    Gives (copy config object) world fun slot after => after = world ∧ slot.target = object := by
  have refers : Gives (reference object) world fun slot after => after = world ∧ slot.target = object := by
    refine .look ?_
    split
    next => exact .look (.pure ⟨rfl, rfl⟩)
    next => exact .pure ⟨rfl, rfl⟩
  have plans : Gives (plan config object) world fun planned after =>
      after = world ∧ ∃ slot, planned = .keep slot ∧ slot.target = object := by
    refine .look ?_
    change Gives (planWith (planWithin world.heap.size config) config object) world _
    refine .look ?_
    split
    next isVar => exact absurd isVar notVar
    next isList => exact absurd isList notList
    next => exact refers.bind fun slot _ ⟨same, target⟩ => .pure ⟨same, slot, rfl, target⟩
  apply plans.bind
  rintro _ _ ⟨rfl, slot, rfl, target⟩
  exact .pure ⟨rfl, target⟩

theorem push_of_changeable (changeable : world.isConstant list = false) (empty : world.slots list = []) :
    push list object config world =
      (do let slot ← copy config object; extend list [slot]; element slot : Act Ref) world := by
  have short : world.length list < Limits.listLength := by
    rw [World.length, empty]
    decide
  rw [push, bind_of_ok (requireChangeable_of_changeable changeable), bind_of_ok (requireRoom_of_short short)]

/-- What the input holds once a variable is bound that has a value. -/
structure Holds (world : World) (list : Ref) (value : Scalar) (after : World) : Prop where
  touches : Touches (· = list) world after
  sound : after.Sound
  inUse : world.inUse <:+ after.inUse
  copied : ∃ copy, after.slots list = [.held copy] ∧ world.heap.size ≤ copy ∧ after.storage? copy = some (.stored value)

/-- A list that is empty gets one element. -/
private theorem slots_extend_of_empty (isList : world.kindOf list = .list) (empty : world.slots list = []) :
    (world.changeSlots list (· ++ [slot])).slots list = [slot] := by
  rw [slots_changeSlots, if_pos ⟨rfl, isList⟩, empty, List.nil_append]

private theorem gives_push_value (sound : world.Sound) (isList : world.kindOf list = .list)
    (changeable : world.isConstant list = false) (empty : world.slots list = []) (live : world.isLive object = true)
    (isVar : world.kindOf object = .var) (ran : Act.value config object world = .ok value after) :
    Gives (push list object config) world fun _ last => Holds world list value last := by
  have old := lt_size_of_isLive (isLive_of_isList isList)
  have still : world.Undisturbed after := ((meets_value sound.ordered).of_ok ran).1
  have copied := copy_of_value isVar ran
  have extended : after.Extends (after.add { name := "", body := .var (.stored value) }) := .add
  have kept : (after.add { name := "", body := .var (.stored value) }).kindOf list = .list := by
    rw [kindOf, extended.old list (old.trans_eq still.size.symm), ← kindOf, still.kindOf, isList]
  have none : (after.add { name := "", body := .var (.stored value) }).slots list = [] := by
    rw [slots_eq, extended.old list (old.trans_eq still.size.symm), ← slots_eq, still.slots, empty]
  have pushed : push list object config world = .ok after.heap.size
      ((after.add { name := "", body := .var (.stored value) }).changeSlots list (· ++ [.held after.heap.size])) := by
    rw [push_of_changeable changeable empty, bind_of_ok copied]
    rfl
  obtain ⟨follows, -⟩ := (safe_push live old).of_ok sound pushed
  refine ⟨_, _, pushed, ?_, follows.sound sound, follows.inUse, after.heap.size, slots_extend_of_empty kept none,
    still.size.ge, ?_⟩
  · exact (still.touches.trans extended.touches).trans (touches_changeList rfl)
  · rw [changeSlots, storage?_changeList, storage?_eq_some, body?, object?_add, if_pos rfl]
    rfl

private theorem push_of_stop (changeable : world.isConstant list = false) (empty : world.slots list = [])
    (isVar : world.kindOf object = .var) (ran : Act.value config object world = .error stop after) :
    push list object config world = .error stop after := by
  rw [push_of_changeable changeable empty, bind_of_error (copy_of_stop isVar ran)]

private theorem gives_push_other (sound : world.Sound) (isList : world.kindOf list = .list)
    (changeable : world.isConstant list = false) (empty : world.slots list = []) (live : world.isLive object = true)
    (notVar : world.kindOf object ≠ .var) (notList : world.kindOf object ≠ .list) :
    Gives (push list object config) world fun _ last => Touches (· = list) world last ∧ last.Sound ∧
      world.inUse <:+ last.inUse ∧ ∃ slot, last.slots list = [slot] ∧ slot.target = object := by
  obtain ⟨slot, middle, copied, same, rfl⟩ := gives_copy_other config notVar notList
  rw [same] at copied
  have kept : (world.changeSlots list (· ++ [slot])).isLive slot.target = true := isLive_change.trans live
  obtain ⟨found, last, ran, -⟩ := gives_element kept
  obtain rfl : last = world.changeSlots list (· ++ [slot]) := ((Meets.element : Meets anything _ _ _).of_ok ran).2.1
  have pushed : push list slot.target config world = .ok found (world.changeSlots list (· ++ [slot])) := by
    rw [push_of_changeable changeable empty, bind_of_ok copied]
    exact ran
  obtain ⟨follows, -⟩ := (safe_push live (lt_size_of_isLive (isLive_of_isList isList))).of_ok sound pushed
  exact ⟨_, _, pushed, touches_changeList rfl, follows.sound sound, follows.inUse, slot, slots_extend_of_empty isList empty, rfl⟩

end Push

private theorem bindInput_eq (found : input operator world = .ok list opened) (sound : opened.Sound)
    (isList : opened.kindOf list = .list) (changeable : opened.isConstant list = false)
    (single : opened.kindOf argument ≠ .list) : bindInput operator argument config world =
      match push list argument config (opened.emptied list) with
      | .ok _ after => .ok () (after.settle opened.inUse)
      | .error stop after => .error stop (after.settle opened.inUse) := by
  have cleared := empties sound isList
  have open' : World.isConstant { opened with inUse := list :: opened.inUse } list = false := changeable
  have other : World.kindOf { opened with inUse := list :: opened.inUse } argument ≠ .list := single
  have resized : resize list 0 config { opened with inUse := list :: opened.inUse } = .ok () (opened.emptied list) :=
    (resize_zero open').trans cleared.ran
  rw [bindInput, bind_of_ok found, holding_eq, List.singleton_append, see_bind, if_neg other, bind_of_ok resized]
  cases ran : push list argument config (opened.emptied list) with
  | ok value after => rw [bind_of_ok ran]; rfl
  | error stop after => rw [bind_of_error ran]

/-- The scope that has a list as a member is no list. -/
private theorem ne_of_list_member (found : (world.members operator).find? name = some list)
    (isList : world.kindOf list = .list) :
    operator ≠ list := by
  rintro rfl
  have isScope := isScope_of_members found
  rw [isList] at isScope
  cases isScope

/-- What a call binds is read once the input is empty. -/
private theorem bindsEmptied (sound : world.Sound) (operating : operator ∈ world.inUse) (given : argument ∈ world.inUse)
    (single : world.kindOf argument ≠ .list) (found : input operator world = .ok list opened)
    (changeable : opened.isConstant list = false) :
    BindsEmptied config world (opened.emptied list) list argument (bindInput operator argument config world) := by
  obtain ⟨-, member, isList⟩ := input_ok found
  obtain ⟨began, listLives⟩ := safe_input.of_ok sound found
  have soundOpened := began.sound sound
  have cleared := empties soundOpened isList
  have used : opened.inUse <:+ (opened.emptied list).inUse := (List.suffix_cons ..).trans cleared.follows.inUse
  have live : (opened.emptied list).isLive argument = true :=
    cleared.sound.inUse (used.subset (began.mem_inUse given))
  have listed : (opened.emptied list).isLive list = true :=
    cleared.sound.inUse (cleared.follows.mem_inUse List.mem_cons_self)
  have old := lt_size_of_isLive listLives
  have stillList : (opened.emptied list).kindOf list = .list := (cleared.touches.kindOf old listed).trans isList
  have stillChangeable : (opened.emptied list).isConstant list = false :=
    (cleared.touches.isConstant old listed).trans changeable
  have argumentLives := sound.inUse given
  have kindOpened : opened.kindOf argument = world.kindOf argument :=
    (began.evolves.before (lt_size_of_isLive argumentLives) (began.isLive argumentLives)).2
  have kind : (opened.emptied list).kindOf argument = world.kindOf argument :=
    (cleared.touches.kindOf (lt_size_of_isLive (began.isLive argumentLives)) live).trans kindOpened
  have settles {after : World} (soundAfter : after.Sound) (later : (opened.emptied list).inUse <:+ after.inUse)
      (touches : Touches (· = list) (opened.emptied list) after) :=
    settled soundAfter (used.trans later) (began.mem_inUse operating) member (cleared.touches.trans touches)
      (ne_of_list_member member isList) (lt_size_of_isLive (soundOpened.inUse (began.mem_inUse operating)))
      (old.trans_le (cleared.touches.size.trans touches.size))
  rw [bindInput_eq found soundOpened isList changeable (kindOpened ▸ single)]
  by_cases isVar : world.kindOf argument = .var
  · cases ran : Act.value config argument (opened.emptied list) with
    | ok value after =>
      obtain ⟨_, last, pushed, held⟩ :=
        gives_push_value cleared.sound stillList stillChangeable cleared.slots live (kind.trans isVar) ran
      obtain ⟨copy, slots, fresh, stored⟩ := held.copied
      obtain ⟨-, same, shows⟩ := settles held.sound held.inUse held.touches
      have apart : copy ≠ list := ((lt_size_of_isLive listed).trans_le fresh).ne'
      rw [pushed]
      refine ⟨.held copy, same.trans slots, fun _ => ?_, fun other => absurd isVar other⟩
      have newer := (began.evolves.size_le.trans cleared.touches.size).trans fresh
      exact ⟨copy, value, rfl, newer, shows copy (by simp [slots]) apart value stored, after, ran⟩
    | error stop after =>
      have still : (opened.emptied list).Undisturbed after := ((meets_value cleared.sound.ordered).of_error ran).1
      have slots : after.slots list = [] := still.slots.trans cleared.slots
      have less : (after.settle opened.inUse).slots list ⊆ after.slots list :=
        (touches_settle : Touches (fun _ => False) after _).slots_subset
          ((lt_size_of_isLive listed).trans_eq still.size.symm) id
      rw [push_of_stop stillChangeable cleared.slots (kind.trans isVar) ran]
      refine ⟨List.subset_nil.mp (slots ▸ less), isVar, ?_⟩
      rintro value ⟨last, again⟩
      cases ran.symm.trans again
  · obtain ⟨_, last, pushed, touches, soundLast, later, slot, slots, target⟩ :=
      gives_push_other cleared.sound stillList stillChangeable cleared.slots live (kind ▸ isVar) (kind ▸ single)
    obtain ⟨-, same, -⟩ := settles soundLast later touches
    rw [pushed]
    exact ⟨slot, same.trans slots, fun other => absurd other isVar, fun _ => target⟩

/-- A value that is stored stays where it is. -/
private theorem stored_emptied (sound : world.Sound) (given : argument ∈ world.inUse)
    (found : input operator world = .ok list opened) (stored : world.storage? argument = some (.stored value)) :
    (opened.emptied list).storage? argument = some (.stored value) := by
  obtain ⟨same, member, isList⟩ := input_ok found
  obtain ⟨began, -⟩ := safe_input.of_ok sound found
  have cleared := empties (began.sound sound) isList
  have live := began.isLive (sound.inUse given)
  have looked : Touches (· = operator) world opened := same ▸ touches_materialize sound.forest
  have isVar : opened.kindOf argument = .var :=
    (looked.kindOf (lt_size_of_isLive (sound.inUse given)) live).trans (kindOf_of_storage? stored)
  have notOperator : argument ≠ operator := by
    rintro rfl
    have isScope := isScope_of_members member
    rw [isVar] at isScope
    cases isScope
  have notList : argument ≠ list := by
    rintro rfl
    cases isVar.symm.trans isList
  have still := looked.stored notOperator stored live
  exact cleared.touches.stored notList still (cleared.sound.inUse (cleared.follows.mem_inUse
    (List.mem_cons_of_mem _ (began.mem_inUse given))))

end Act

namespace World

open Act

variable {world opened cleared : World} {operator list argument : Ref} {config : Config}

/-- A call captures its argument exactly where the argument shows what it did once the input is empty, or shows nothing
then and the input was empty before. -/
theorem BindsEmptied.captures_iff {result : EStateM.Result Stop World Unit}
    (binds : BindsEmptied config world cleared list argument result) :
    Captures config world list argument result ↔ (world.kindOf argument = .var →
      (∃ value, cleared.HasValue config argument value ∧ world.HasValue config argument value) ∨
        world.slots list = [] ∧ ∀ value, ¬ cleared.HasValue config argument value) := by
  cases result with
  | error stop after =>
    obtain ⟨slots, isVar, none⟩ := binds
    constructor
    · intro kept _
      exact .inr ⟨kept.symm.trans slots, none⟩
    · intro shows
      rcases shows isVar with ⟨value, has, -⟩ | ⟨empty, -⟩
      · exact absurd has (none value)
      · exact slots.trans empty.symm
  | ok value after =>
    obtain ⟨slot, slots, copied, other⟩ := binds
    constructor
    · rintro ⟨_, again, captured, -⟩ isVar
      obtain ⟨copy, value, rfl, -, stored, has⟩ := copied isVar
      obtain ⟨former, _, rfl, -, there, had⟩ := captured isVar
      obtain rfl : copy = former := Slot.held.inj (List.cons.inj (slots.symm.trans again)).1
      obtain rfl := Storage.stored.inj (Option.some.inj (stored.symm.trans there))
      exact .inl ⟨value, has, had⟩
    · intro shows
      refine ⟨slot, slots, fun isVar => ?_, other⟩
      obtain ⟨copy, value, held, fresh, stored, has⟩ := copied isVar
      rcases shows isVar with ⟨former, now, before⟩ | ⟨-, none⟩
      · exact ⟨copy, value, held, fresh, stored, now.unique has ▸ before⟩
      · exact absurd has (none value)

/-- The input of an operator is emptied before the argument is read, which decides what is bound and what a failure
leaves. So a call captures its argument where the argument still shows what it did, as it does if it is no variable, if
its value is stored, or if it is worked out within a region that looks alike; and a call that fails has lost what the
input held. -/
theorem argument_captured_iff (ongoing : world.Ongoing) (operating : operator ∈ world.inUse)
    (given : argument ∈ world.inUse) (single : world.kindOf argument ≠ .list)
    (found : input operator world = .ok list opened) (changeable : opened.isConstant list = false) (config : Config) :
    BindsEmptied config world (opened.emptied list) list argument (bindInput operator argument config world) ∧
      (Captures config world list argument (bindInput operator argument config world) ↔
        (world.kindOf argument = .var →
          (∃ value, (opened.emptied list).HasValue config argument value ∧ world.HasValue config argument value) ∨
            world.slots list = [] ∧ ∀ value, ¬ (opened.emptied list).HasValue config argument value)) ∧
      (∀ value, world.storage? argument = some (.stored value) →
        Captures config world list argument (bindInput operator argument config world)) ∧
      ∀ region value, region argument → Legible config region (opened.emptied list) →
        Mirrors config region (opened.emptied list) world → (opened.emptied list).HasValue config argument value →
        Captures config world list argument (bindInput operator argument config world) := by
  have sound := ongoing.sound
  have binds : BindsEmptied config world (opened.emptied list) list argument (bindInput operator argument config world) :=
    bindsEmptied sound operating given single found changeable
  refine ⟨binds, binds.captures_iff, fun value stored => binds.captures_iff.mpr fun _ => .inl ⟨value, ?_, ?_⟩, ?_⟩
  · exact (hasValue_stored (stored_emptied sound given found stored)).mpr rfl
  · exact (hasValue_stored stored).mpr rfl
  · intro region value inside legible mirrors has
    exact binds.captures_iff.mpr fun _ => .inl ⟨value, has, has.mirrors inside legible mirrors sound.ordered⟩

/-- An operator that has been called once. -/
def calledOnce : List Step :=
  [{ action := .create (.operator "o" .echo), name := some "o" },
    { action := .operator (.operate (.value (.text "abc"))), target := some "o" }]

/-- The operator and a variable that have been called for. -/
def calledWithText : World :=
  let called := (runAll {} (calledOnce ++ [{ action := .create (.value "v" (.text "x")), name := some "v" }])).2
  { called with inUse := [0, 5] ++ called.inUse }

/-- The text takes the place of what was bound before. -/
theorem argument_captured_of_text :
    ∃ after copy, bindInput 0 5 {} calledWithText = .ok () after ∧ after.slots 2 = [.held copy] ∧
      after.storage? copy = some (.stored (.text "x")) := by
  have ongoing : calledWithText.Ongoing := Ongoing.use (Reachable.ongoing (.runAll (.start {}) _)) (by decide +kernel)
  have operating : 0 ∈ calledWithText.inUse := by decide +kernel
  have given : 5 ∈ calledWithText.inUse := by decide +kernel
  have isVar : calledWithText.kindOf 5 = .var := by decide +kernel
  have member : (calledWithText.members 0).find? "in" = some 2 := by decide +kernel
  have isList : calledWithText.kindOf 2 = .list := by decide +kernel
  have found : input 0 calledWithText = .ok 2 calledWithText := input_of_member ongoing.sound.forest member isList
  have changeable : calledWithText.isConstant 2 = false := by decide +kernel
  have stored : calledWithText.storage? 5 = some (.stored (.text "x")) := by decide +kernel
  have succeeds : stop? (bindInput 0 5 {}) calledWithText = none := by decide +kernel
  have captures := (argument_captured_iff ongoing operating given (by rw [isVar]; decide) found changeable {}).2.2.1 _ stored
  cases ran : bindInput 0 5 {} calledWithText with
  | error stop after =>
    rw [stop?, ran] at succeeds
    cases succeeds
  | ok value after =>
    rw [ran] at captures
    obtain ⟨_, slots, copied, -⟩ := captures
    obtain ⟨copy, shown, rfl, -, copies, has⟩ := copied isVar
    exact ⟨after, copy, rfl, slots, (hasValue_stored stored).mp has ▸ copies⟩

/-- An operator that has been called once, and a variable that shows how much its input holds. -/
def calledOnceCounted : World :=
  (runAll {} (calledOnce ++ [{ action := .operator .input, target := some "o", name := some "i" },
    { action := .list .length, target := some "i", name := some "n" }])).2

/-- The input holds one element, but the call binds the number zero. -/
theorem length_bound_as_zero :
    calledOnceCounted.storage? 5 = some (.bound (.length 2 "o:in")) ∧ calledOnceCounted.length 2 = 1 ∧
      let called := (calledOnceCounted.run { action := .operator (.operate (.handle "n")), target := some "o" })
      called.1.stop? = none ∧ (called.2.slots 2).map (fun slot => called.2.storage? slot.target) =
        [some (.stored (.number (.integer 0 {})))] := by
  decide +kernel

end World

end Dialogue
