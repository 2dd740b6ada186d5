import Dialogue.Proofs.MadeCopies

/-! The text of a list is that of its copy. A plan has a text of its own: the values that were read and the full names
of what is shared, and the first alias of an object that has gone stops whoever reads it. Wherever a plan describes a
list, that is what flattening the list comes to. -/

namespace Dialogue

/-- The text of a scalar, or what stops whoever wants it. -/
def Scalar.shown (config : Config) (scalar : Scalar) : Except Stop String :=
  (scalar.asText config).mapError Stop.ofFailure

namespace Copy

mutual
/-- The text of what is planned, or what stops whoever reads it. -/
def shown (config : Config) (world : World) : Copy → Except Stop String
  | .value scalar => scalar.shown config
  | .list items => allShown config world items
  | .keep (.held ref) => .ok (world.fullName ref)
  | .keep (.link target name) =>
    if world.isLive target then .ok (world.fullName target) else .error (.ofCause (.notFound name))

def allShown (config : Config) (world : World) : List Copy → Except Stop String
  | [] => .ok ""
  | copy :: copies => do return (← copy.shown config world) ++ (← allShown config world copies)
end

variable {config : Config} {world after : World}

mutual
/-- What copies share has the same name where they are made. -/
private theorem shown_eq (sound : world.Sound) (adds : world.Adds after) : ∀ {copy : Copy},
    copy.SharesIn (fun ref => ref < world.heap.size ∧ world.Shared ref) → copy.shown config after = copy.shown config world
  | .value _, _ => rfl
  | .list items, within => by rw [shown, allShown_eq sound adds within, shown]
  | .keep (.held ref), within => by
    have old : ref < world.heap.size := within.1
    rw [shown, adds.fullName_known sound.forest old, shown]
  | .keep (.link target name), within => by
    have old : target < world.heap.size := within.1
    rw [shown, adds.isLive old, adds.fullName_known sound.forest old, shown]

theorem allShown_eq (sound : world.Sound) (adds : world.Adds after) : ∀ {copies : List Copy},
    AllShareIn (fun ref => ref < world.heap.size ∧ world.Shared ref) copies →
      allShown config after copies = allShown config world copies
  | [], _ => rfl
  | copy :: copies, ⟨first, others⟩ => by rw [allShown, shown_eq sound adds first, allShown_eq sound adds others, allShown]
end

end Copy

namespace Act

open World

variable {α β : Type} {world beside : World} {ref list : Ref} {config : Config} {region : Ref → Prop}

/-- What an act comes to, whatever it changes. -/
def outcome (act : Act α) (world : World) : Except Stop α :=
  match act world with
  | .ok value _ => .ok value
  | .error stop _ => .error stop

/-- An act comes to something, unless its fuel does not last. -/
def Comes (act : Act α) (world : World) (expected : Except Stop α) (kept : World → Prop) : Prop :=
  match act world with
  | .ok value after => expected = .ok value ∧ kept after
  | .error stop _ => stop = .fault .exhausted ∨ expected = .error stop

namespace Comes

variable {act : Act α} {next : α → Act β} {expected : Except Stop α} {rest : α → Except Stop β}
  {kept : World → Prop} {last : World → Prop}

theorem pure {value : α} (done : kept world) : Comes (pure value) world (.ok value) kept := ⟨rfl, done⟩

theorem raise {cause : Cause} : Comes (raise cause : Act α) world (.error (.ofCause cause)) kept := .inr rfl

theorem compute {value : Except (Failure Cause) α} (done : kept world) :
    Comes (compute value) world (value.mapError Stop.ofFailure) kept := by
  rcases value with (_ | _) | value
  · exact .inr rfl
  · exact .inr rfl
  · exact ⟨rfl, done⟩

theorem look {view : World → α} {expected : Except Stop β} (rest : Comes (next (view world)) world expected kept) :
    Comes (see view >>= next) world expected kept := rest

theorem bind (first : Comes act world expected kept)
    (later : ∀ value after, kept after → Comes (next value) after (rest value) last) :
    Comes (act >>= next) world (expected >>= rest) last := by
  unfold Comes at first
  unfold Comes
  cases ran : act world with
  | ok value after =>
    rw [ran] at first
    obtain ⟨rfl, done⟩ := first
    rw [bind_of_ok ran]
    exact later value after done
  | error stop after =>
    rw [ran] at first
    rw [bind_of_error ran]
    exact first.imp id fun same => by rw [same]; rfl

/-- What stops for good is not followed by anything. -/
private theorem bind_error {stop : Stop} (stops : Comes act world (.error stop) kept) :
    Comes (act >>= next) world (.error stop) last := by
  unfold Comes at stops
  unfold Comes
  cases ran : act world with
  | ok value after =>
    rw [ran] at stops
    exact nomatch stops.1
  | error early after =>
    rw [ran] at stops
    rw [bind_of_error ran]
    exact stops.imp id fun same => congrArg _ (Except.error.inj same)

theorem weaken (comes : Comes act world expected kept) (done : ∀ after, kept after → last after) :
    Comes act world expected last := by
  unfold Comes at comes ⊢
  cases ran : act world with
  | ok value after =>
    rw [ran] at comes
    exact ⟨comes.1, done after comes.2⟩
  | error stop after =>
    rw [ran] at comes
    exact comes

theorem whileBusy (comes : Comes act (world.setBusy list true) expected kept)
    (done : ∀ after, kept after → last (after.setBusy list false)) : Comes (whileBusy list act) world expected last := by
  unfold Comes Act.whileBusy
  unfold Comes at comes
  cases ran : act (world.setBusy list true) with
  | ok value after =>
    rw [ran] at comes
    exact ⟨comes.1, done after comes.2⟩
  | error stop after =>
    rw [ran] at comes
    exact comes

/-- What does not stop for want of fuel comes to what it comes to. -/
theorem outcome_eq (comes : Comes act world expected kept) (lasts : Meets quiet act world fun _ _ => True) :
    outcome act world = expected := by
  unfold Comes at comes
  unfold outcome
  cases ran : act world with
  | ok value after =>
    rw [ran] at comes
    exact comes.1.symm
  | error stop after =>
    rw [ran] at comes
    rcases (lasts.of_error ran).2 with ⟨anomaly, rfl⟩ | rfl
    · exact (comes.resolve_left nofun).symm
    · exact (comes.resolve_left nofun).symm

end Comes

/-- Whether something reads values as far as some fuel lasts. -/
def Fueled (config : Config) (read : Ref → Act Scalar) : Prop :=
  ∀ ref world, ∃ fuel, read ref world = valueWithin fuel config ref world

private theorem fueled_valueWithin {fuel : Nat} : Fueled config (valueWithin fuel config) := fun _ _ => ⟨fuel, rfl⟩

theorem fueled_value : Fueled config (value config) := fun _ world => ⟨world.readingFuel, rfl⟩

/-- Where a slot can be read as in a world. -/
structure Readable (config : Config) (region : Ref → Prop) (world beside : World) (slot : Slot) : Prop where
  copyable : world.Copyable config slot.target
  near : Nearby config world slot.target beside
  within : ∀ other, world.DependsOn slot.target other → region other

namespace Readable

variable {slot inner : Slot} (readable : Readable config region world beside slot)

include readable

theorem later {after : World} (twins : Twins config region beside after) : Readable config region world after slot :=
  ⟨readable.copyable, readable.near.later twins readable.within, readable.within⟩

theorem enter (member : inner ∈ world.slots slot.target) :
    Readable config region world (beside.setBusy slot.target true) inner :=
  ⟨readable.copyable.element member, readable.near.enter readable.copyable member,
    fun other reached => readable.within other (.head (consults_of_mem member) reached)⟩

theorem free : beside.isBusy slot.target = false :=
  (readable.near.forth.isBusy .refl).trans (readable.copyable.idle _ .refl)

end Readable

variable {slot : Slot} {text : String} {read : Ref → Act Scalar} {kept : World → Prop}

theorem comes_element {expected : Except Stop Scalar} (live : slot.held? = none → world.isLive slot.target = true)
    (reads : Comes (read slot.target) world expected kept) :
    Comes (joined read config text slot) world (do return text ++ (← (← expected).shown config)) kept := by
  have reading : Comes (do return text ++ (← compute ((← read slot.target).asText config))) world
      (do return text ++ (← (← expected).shown config)) kept := by
    refine reads.bind fun value after done => ?_
    have shown : Comes (compute (value.asText config)) after (value.shown config) kept := .compute done
    exact shown.bind fun _ _ done => .pure done
  rcases slot with element | ⟨target, name⟩
  · exact reading
  · have demanded : Act.element (.link target name) world = .ok target world := by
      obtain ⟨_, _, ran, rfl, rfl⟩ := gives_demand (live rfl)
      exact ran
    unfold Comes joined
    rw [bind_of_ok demanded]
    exact reading

private theorem comes_gone {target : Ref} {name : String} (gone : world.isLive target = false) :
    Comes (element (.link target name)) world (.error (.ofCause (.notFound name))) fun _ => False := by
  have demands : Comes (demand target name) world (.error (.ofCause (.notFound name))) fun _ => False := by
    refine .look ?_
    rw [if_neg (by rw [gone]; exact Bool.false_ne_true)]
    exact .raise
  exact demands

/-- A list that is free comes to what its elements come to while it is busy. -/
theorem comes_flattenWith {expected : Except Stop String} (free : world.isBusy list = false)
    (reads : Comes ((world.slots list).foldlM (joined read config) "") (world.setBusy list true) expected
      (Twins config region (world.setBusy list true))) :
    Comes (flattenWith read config list) world expected (Twins config region world) := by
  refine .look ?_
  rw [free, if_neg Bool.false_ne_true]
  have reading : Comes (do
        (← see (·.slots list)).foldlM (joined read config) "") (world.setBusy list true) expected
      (Twins config region (world.setBusy list true)) := .look (slots_setBusy.symm ▸ reads)
  exact reading.whileBusy fun after twins => twins.whileBusy free

/-- What agrees with an act that has a result comes to that result. -/
theorem comes_of_agrees {act other : Act α} {alike : World → World → Prop} {value : α} {after : World}
    (ran : act world = .ok value after) (agrees : Agrees alike act world other beside)
    (again : Agrees (Tracks config region beside) other beside other beside) :
    Comes other beside (.ok value) (Twins config region beside) := by
  have alike := agrees value after ran
  unfold Comes
  cases went : other beside with
  | ok found last =>
    have reread := again found last went
    rw [went] at alike reread
    exact ⟨congrArg _ alike.1.symm, reread.2.kept⟩
  | error stop last =>
    rw [went] at alike
    exact .inl alike

/-- A value that an object shows in a world is what a reading comes to beside it. -/
private theorem comes_value {scalar : Scalar} (fueled : Fueled config read)
    (has : world.HasValue config slot.target scalar)
    (readable : Readable config region world beside slot) (legible : Legible config region beside) :
    Comes (read slot.target) beside (.ok scalar) (Twins config region beside) := by
  obtain ⟨fuel, same⟩ := fueled slot.target beside
  obtain ⟨after, there⟩ := has
  have comes : Comes (valueWithin fuel config slot.target) beside (.ok scalar) (Twins config region beside) :=
    comes_of_agrees there
      (readsAlike_valueWithin _ _ _ world beside .refl readable.copyable.legible readable.near.forth)
      (readsAlike_valueWithin _ _ _ beside beside (readable.within _ .refl) legible .refl)
  unfold Comes
  rw [same]
  exact comes

/-- An object that is neither a variable nor a list shows its full name. -/
private theorem comes_name (fueled : Fueled config read) (shared : world.Shared slot.target)
    (readable : Readable config region world beside slot) :
    Comes (read slot.target) beside (.ok (.text (world.fullName slot.target))) (Twins config region beside) := by
  obtain ⟨fuel, same⟩ := fueled slot.target beside
  unfold Comes
  rw [same]
  cases fuel with
  | zero => exact .inl rfl
  | succ fuel =>
    have kind := readable.near.forth.kindOf .refl
    have name : Comes (do return Scalar.text (← see (·.fullName slot.target))) beside
        (.ok (.text (world.fullName slot.target))) (Twins config region beside) := by
      rw [← readable.near.forth.fullName .refl]
      exact .look (.pure .refl)
    change Comes (valueWith _ config slot.target) beside _ _
    refine .look ?_
    cases found : beside.body? slot.target with
    | none => exact name
    | some body =>
      have looks : beside.kindOf slot.target = Object.kind { name := "", body } := by
        rw [kindOf_eq_body?, found]
        rfl
      cases body with
      | var => exact absurd (kind.symm.trans looks) shared.1
      | list => exact absurd (kind.symm.trans looks) shared.2
      | plain => exact name
      | scope => exact name

/-- A list shows the text of its elements. -/
private theorem comes_list {expected : Except Stop String} (fueled : Fueled config read)
    (isList : world.kindOf slot.target = .list)
    (readable : Readable config region world beside slot)
    (reads : ∀ read, Fueled config read →
      Comes ((world.slots slot.target).foldlM (joined read config) "") (beside.setBusy slot.target true) expected
        (Twins config region (beside.setBusy slot.target true))) :
    Comes (read slot.target) beside (do return .text (← expected)) (Twins config region beside) := by
  obtain ⟨fuel, same⟩ := fueled slot.target beside
  unfold Comes
  rw [same]
  cases fuel with
  | zero => exact .inl rfl
  | succ fuel =>
    obtain ⟨data, listed⟩ := list?_of_isList ((readable.near.forth.kindOf .refl).trans isList)
    change Comes (valueWith _ config slot.target) beside _ _
    refine .look ?_
    rw [list?_eq_some.mp listed]
    have flattens : Comes (flattenWith (valueWithin fuel config) config slot.target) beside expected
        (Twins config region beside) :=
      comes_flattenWith readable.free ((readable.near.forth.slots .refl).symm ▸ reads _ fueled_valueWithin)
    exact flattens.bind fun _ _ done => .pure done

private theorem appended_empty {expected : Except Stop String} : (do return "" ++ (← expected)) = expected := by
  cases expected with
  | error stop => rfl
  | ok shown => exact congrArg Except.ok String.empty_append

private theorem appended_text {expected : Except Stop String} :
    (do return text ++ (← (← (do return Scalar.text (← expected) : Except Stop Scalar)).shown config)) =
      (do return text ++ (← expected)) := by
  cases expected <;> rfl

private theorem shown_sharing (live : world.isLive ref = true) :
    (Copy.keep (world.sharing ref)).shown config world = .ok (world.fullName ref) := by
  unfold sharing
  split
  · rw [Copy.shown, if_pos live]
  · rfl

private theorem appended_cons {copy : Copy} {copies : List Copy} :
    (do return text ++ (← Copy.allShown config world (copy :: copies))) =
    (do let shown ← (do return text ++ (← copy.shown config world)); return shown ++ (← Copy.allShown config world copies)) := by
  rw [Copy.allShown]
  cases copy.shown config world with
  | error stop => rfl
  | ok first =>
    cases Copy.allShown config world copies with
    | error stop => rfl
    | ok rest => exact congrArg Except.ok (String.append_assoc.symm)

mutual
/-- Reading a slot comes to what the plan says of it. -/
private theorem comes_slot : ∀ (copy : Copy) {slot : Slot} {beside : World} {text : String} {read : Ref → Act Scalar},
    Fueled config read → copy.Describes config world slot → Readable config region world beside slot →
      Legible config region beside → Comes (joined read config text slot) beside
        (do return text ++ (← copy.shown config world)) (Twins config region beside)
  | .value scalar, slot, beside, text, read, fueled, describes, readable, legible => by
    obtain ⟨isVar, has⟩ := describes
    have live : world.isLive slot.target = true := isLive_of_kindOf (by rw [isVar]; exact nofun)
    exact comes_element (fun _ => (readable.near.isLive _).trans live) (comes_value fueled has readable legible)
  | .list items, slot, beside, text, read, fueled, describes, readable, legible => by
    obtain ⟨isList, all⟩ := describes
    have live : beside.isLive slot.target = true := (readable.near.isLive _).trans (isLive_of_isList isList)
    have reads : ∀ read : Ref → Act Scalar, Fueled config read →
        Comes ((world.slots slot.target).foldlM (joined read config) "") (beside.setBusy slot.target true)
          (Copy.allShown config world items) (Twins config region (beside.setBusy slot.target true)) := by
      intro read fueled
      have plain : (do return "" ++ (← Copy.allShown config world items)) = Copy.allShown config world items := appended_empty
      rw [← plain]
      exact comes_slots items fueled all (fun slot member => readable.enter member) legible.setBusy
    rw [Copy.shown, ← appended_text]
    exact comes_element (fun _ => live) (comes_list fueled isList readable reads)
  | .keep kept, slot, beside, text, read, fueled, describes, readable, legible => by
    obtain ⟨shared, rfl⟩ := describes
    by_cases live : world.isLive slot.target = true
    · rw [if_pos live, shown_sharing live]
      exact comes_element (fun _ => (readable.near.isLive _).trans live) (comes_name fueled shared readable)
    · rw [if_neg live]
      rcases slot with element | ⟨target, name⟩
      · exact comes_element (by rintro ⟨⟩) (comes_name fueled shared readable)
      · have gone : ¬ world.isLive target = true := live
        rw [Copy.shown, if_neg gone]
        exact (comes_gone ((readable.near.isLive target).trans (Bool.not_eq_true _ ▸ gone))).bind_error

theorem comes_slots :
    ∀ (copies : List Copy) {slots : List Slot} {beside : World} {text : String} {read : Ref → Act Scalar},
    Fueled config read → Copy.DescribesAll config world copies slots →
      (∀ slot ∈ slots, Readable config region world beside slot) → Legible config region beside →
        Comes (slots.foldlM (joined read config) text) beside
          (do return text ++ (← Copy.allShown config world copies)) (Twins config region beside)
  | [], _, _, text, _, _, rfl, _, _ => by
    rw [Copy.allShown]
    exact ⟨congrArg _ String.append_empty, .refl⟩
  | copy :: copies, _, beside, text, read, fueled, ⟨slot, rest, rfl, first, others⟩, readable, legible => by
    obtain ⟨here, among⟩ := List.forall_mem_cons.mp readable
    rw [List.foldlM_cons, appended_cons]
    refine (comes_slot copy fueled first here legible).bind fun shown after began => ?_
    have later : Comes (rest.foldlM (joined read config) shown) after _ _ :=
      comes_slots copies fueled others (fun slot member => (among slot member).later began) (began.forth.legible legible)
    exact later.weaken fun _ => began.trans
end

theorem outcome_eq_ok {act : Act α} {value : α} :
    outcome act world = .ok value ↔ ∃ after, act world = .ok value after := by
  unfold outcome
  cases act world <;> simp

theorem flattenWith_eq (free : world.isBusy list = false) : flattenWith read config list world =
    whileBusy list (do (← see (·.slots list)).foldlM (joined read config) "") world := by
  unfold flattenWith
  rw [see_bind, free, if_neg Bool.false_ne_true]
  rfl

/-- The elements of a list can be read while it is busy. -/
theorem readable_elements (ordered : world.Ordered) (copyable : world.Copyable config list)
    (member : slot ∈ world.slots list) :
    Readable config (world.DependsOn list) world (world.setBusy list true) slot := by
  have near : Nearby config world list world := ⟨.refl, .refl, ordered⟩
  exact ⟨copyable.element member, near.enter copyable member, fun _ reached => .head (consults_of_mem member) reached⟩

/-- Flattening a list comes to what a plan says of its elements. -/
theorem flatten_shown {copies : List Copy} (ordered : world.Ordered) (copyable : world.Copyable config list)
    (described : Copy.DescribesAll config world copies (world.slots list)) :
    outcome (flatten config list) world = Copy.allShown config world copies := by
  have plain : (do return "" ++ (← Copy.allShown config world copies)) = Copy.allShown config world copies := appended_empty
  have comes : Comes (flatten config list) world (Copy.allShown config world copies)
      (Twins config (world.DependsOn list) world) := by
    refine comes_flattenWith (copyable.idle list .refl) ?_
    rw [← plain]
    exact comes_slots copies fueled_value described (fun slot => readable_elements ordered copyable)
      copyable.legible.setBusy
  exact comes.outcome_eq (meets_flatten ordered)

end Act

end Dialogue
