import Dialogue.Proofs.LifetimeSafety
import Dialogue.Proofs.ReadingSafety
import Dialogue.Session.Answer
import Dialogue.Variables.Writing

/-! What acts guarantee besides safety. A guarantee says what an act keeps, whether it has a result or stops,
and for what it may stop. Acts that are put together from others guarantee what all of them do. -/

namespace Dialogue.Act

variable {α β : Type} {world after : World}

structure Guarantee where
  /-- What stays as it was, from the world before to the world after. -/
  keeps : World → World → Prop
  /-- What an act that begins in a world may stop for. -/
  allows : World → Stop → Prop
  refl : ∀ world, keeps world world
  trans : ∀ {first second third}, keeps first second → keeps second third → keeps first third
  earlier : ∀ {first second stop}, keeps first second → allows second stop → allows first stop
  anomalies : ∀ {world anomaly}, allows world (.anomaly anomaly)

/-- An act gives a guarantee, and what it comes to has some property. -/
def Meets (guarantee : Guarantee) (act : Act α) (world : World) (post : α → World → Prop) : Prop :=
  match act world with
  | .ok result after => guarantee.keeps world after ∧ post result after
  | .error stop after => guarantee.keeps world after ∧ guarantee.allows world stop

namespace Meets

variable {guarantee other : Guarantee} {act : Act α} {next : α → Act β} {mid result : α → World → Prop}
  {post : β → World → Prop}

theorem of_error {stop : Stop} (stopped : act world = .error stop after) (meets : Meets guarantee act world result) :
    guarantee.keeps world after ∧ guarantee.allows world stop := by
  unfold Meets at meets
  rwa [stopped] at meets

theorem of_ok {value : α} (ran : act world = .ok value after) (meets : Meets guarantee act world result) :
    guarantee.keeps world after ∧ result value after := by
  unfold Meets at meets
  rwa [ran] at meets

theorem keeps_leaves (meets : Meets guarantee act world result) : guarantee.keeps world (leaves act world) := by
  unfold leaves
  cases ran : act world with
  | ok value after => exact (meets.of_ok ran).1
  | error stop after => exact (meets.of_error ran).1

theorem pure {value : α} (done : result value world) : Meets guarantee (pure value) world result :=
  ⟨guarantee.refl world, done⟩

theorem bind (first : Meets guarantee act world mid)
    (rest : ∀ value after, guarantee.keeps world after → mid value after → Meets guarantee (next value) after post) :
    Meets guarantee (act >>= next) world post := by
  change match EStateM.bind act next world with
    | .ok result after => guarantee.keeps world after ∧ post result after
    | .error stop after => guarantee.keeps world after ∧ guarantee.allows world stop
  unfold EStateM.bind
  cases ran : act world with
  | error stop after => exact first.of_error ran
  | ok value after =>
    obtain ⟨began, done⟩ := first.of_ok ran
    have ended := rest value after began done
    dsimp only
    cases went : next value after with
    | error stop last =>
      obtain ⟨kept, allowed⟩ := ended.of_error went
      exact ⟨guarantee.trans began kept, guarantee.earlier began allowed⟩
    | ok answer last =>
      obtain ⟨kept, answered⟩ := ended.of_ok went
      exact ⟨guarantee.trans began kept, answered⟩

theorem weaken (meets : Meets guarantee act world mid)
    (implies : ∀ value after, guarantee.keeps world after → mid value after → result value after) :
    Meets guarantee act world result := by
  unfold Meets
  split
  next value after ran =>
    obtain ⟨kept, done⟩ := meets.of_ok ran
    exact ⟨kept, implies value after kept done⟩
  next stopped => exact meets.of_error stopped

theorem forget (meets : Meets guarantee act world mid) : Meets guarantee act world fun _ _ => True :=
  meets.weaken fun _ _ _ _ => trivial

/-- What an act comes to, it comes to by a run. -/
theorem with_ran (meets : Meets guarantee act world result) :
    Meets guarantee act world fun value after => act world = .ok value after ∧ result value after := by
  unfold Meets
  split
  next ran =>
    obtain ⟨kept, found⟩ := meets.of_ok ran
    exact ⟨kept, ran, found⟩
  next stopped => exact meets.of_error stopped

/-- A guarantee that promises less. -/
theorem relax (meets : Meets other act world result)
    (keeps : ∀ {after}, other.keeps world after → guarantee.keeps world after)
    (allows : ∀ {stop}, other.allows world stop → guarantee.allows world stop) :
    Meets guarantee act world result := by
  unfold Meets
  split
  next ran => exact (meets.of_ok ran).imp_left keeps
  next stopped => exact (meets.of_error stopped).imp keeps allows

/-- What is safe also leads to sound worlds, in which the rest of an act goes on. -/
theorem with_safe {freedom : Freedom} {led : α → World → Prop} (meets : Meets guarantee act world result)
    (sound : world.Sound) (safe : Safe freedom act world led) :
    Meets guarantee act world fun value after =>
      result value after ∧ after.Sound ∧ Follows freedom world after ∧ led value after := by
  have followed := safe sound
  unfold Meets
  split
  next value after ran =>
    rw [ran] at followed
    obtain ⟨kept, done⟩ := meets.of_ok ran
    exact ⟨kept, done, followed.1.sound sound, followed⟩
  next stopped => exact meets.of_error stopped

/-- What an act guarantees while a list is busy. -/
theorem whileBusy {list : Ref} (meets : Meets other act (world.setBusy list true) mid)
    (keeps : ∀ {after}, other.keeps (world.setBusy list true) after → guarantee.keeps world (after.setBusy list false))
    (allows : ∀ {stop}, other.allows (world.setBusy list true) stop → guarantee.allows world stop)
    (done : ∀ value after, mid value after → result value (after.setBusy list false)) :
    Meets guarantee (whileBusy list act) world result := by
  unfold Meets Act.whileBusy
  cases ran : act (world.setBusy list true) with
  | ok value after =>
    obtain ⟨kept, found⟩ := meets.of_ok ran
    exact ⟨keeps kept, done value after found⟩
  | error stop after => exact (meets.of_error ran).imp keeps allows

/-- What an act guarantees that lets go of all that it kept. -/
theorem lettingGo (meets : Meets other act world mid)
    (keeps : ∀ {after}, other.keeps world after → guarantee.keeps world (after.settle world.inUse))
    (allows : ∀ {stop}, other.allows world stop → guarantee.allows world stop)
    (done : ∀ value after, mid value after → result value (after.settle world.inUse)) :
    Meets guarantee (lettingGo (fun _ => []) act) world result := by
  unfold Meets Act.lettingGo
  cases ran : act world with
  | ok value after =>
    obtain ⟨kept, found⟩ := meets.of_ok ran
    exact ⟨keeps kept, done value after found⟩
  | error stop after => exact (meets.of_error ran).imp keeps allows

/-- What an act guarantees while some objects are held. -/
theorem holding {refs : List Ref} (meets : Meets other act { world with inUse := refs ++ world.inUse } mid)
    (keeps : ∀ {after}, other.keeps { world with inUse := refs ++ world.inUse } after →
      guarantee.keeps world (after.settle world.inUse))
    (allows : ∀ {stop}, other.allows { world with inUse := refs ++ world.inUse } stop → guarantee.allows world stop)
    (done : ∀ value after, mid value after → result value (after.settle world.inUse)) :
    Meets guarantee (holding refs act) world result := by
  have used : (do update fun world => { world with inUse := refs ++ world.inUse }; act : Act α) world =
      act { world with inUse := refs ++ world.inUse } := rfl
  unfold Meets Act.holding Act.lettingGo
  rw [used]
  cases ran : act { world with inUse := refs ++ world.inUse } with
  | ok value after =>
    obtain ⟨kept, found⟩ := meets.of_ok ran
    exact ⟨keeps kept, done value after found⟩
  | error stop after => exact (meets.of_error ran).imp keeps allows

theorem see {view : World → α} (done : result (view world) world) : Meets guarantee (see view) world result :=
  ⟨guarantee.refl world, done⟩

theorem look {view : World → α} (rest : Meets guarantee (next (view world)) world post) :
    Meets guarantee (Act.see view >>= next) world post := rest

theorem throw {stop : Stop} (allowed : guarantee.allows world stop) : Meets guarantee (throw stop) world result :=
  ⟨guarantee.refl world, allowed⟩

theorem raise {cause : Cause} : Meets guarantee (raise cause) world result := throw guarantee.anomalies

theorem throw_bind {stop : Stop} (allowed : guarantee.allows world stop) :
    Meets guarantee ((MonadExcept.throw stop : Act α) >>= next) world post := by
  have stops : Meets guarantee (MonadExcept.throw stop : Act α) world fun _ _ => False := throw allowed
  exact stops.bind fun _ _ _ => False.elim

theorem raise_bind {cause : Cause} : Meets guarantee (Act.raise cause >>= next) world post :=
  throw_bind guarantee.anomalies

theorem lift {value : Except Cause α} (done : ∀ found, value = .ok found → result found world) :
    Meets guarantee (lift value) world result := by
  cases value with
  | ok found => exact .pure (done found rfl)
  | error cause => exact .raise

theorem lift_bind {value : Except Cause α}
    (rest : ∀ found, value = .ok found → Meets guarantee (next found) world post) :
    Meets guarantee (Act.lift value >>= next) world post := by
  cases value with
  | ok found => exact rest found rfl
  | error cause => exact .raise_bind

/-- Working something out either gives a value, or is refused, or overflows. -/
theorem compute {value : Except (Failure Cause) α}
    (overflows : value = .error .overflow → guarantee.allows world (.fault .overflow))
    (done : ∀ found, value = .ok found → result found world) : Meets guarantee (compute value) world result := by
  rcases value with (cause | _) | found
  · exact throw guarantee.anomalies
  · exact throw (overflows rfl)
  · exact .pure (done found rfl)

theorem compute_bind {value : Except (Failure Cause) α}
    (overflows : value = .error .overflow → guarantee.allows world (.fault .overflow))
    (rest : ∀ found, value = .ok found → Meets guarantee (next found) world post) :
    Meets guarantee (Act.compute value >>= next) world post := by
  have computes : Meets guarantee (Act.compute value) world fun found after => after = world ∧ value = .ok found :=
    compute overflows fun _ read => ⟨rfl, read⟩
  refine computes.bind ?_
  rintro found after - ⟨rfl, read⟩
  exact rest found read

theorem update {rule : World → World} {result : Unit → World → Prop} (keeps : guarantee.keeps world (rule world))
    (done : result () (rule world)) : Meets guarantee (update rule) world result :=
  ⟨keeps, done⟩

theorem update_bind {rule : World → World} {next : Unit → Act β} (keeps : guarantee.keeps world (rule world))
    (rest : Meets guarantee (next ()) (rule world) post) : Meets guarantee (Act.update rule >>= next) world post := by
  have updates : Meets guarantee (Act.update rule) world fun _ after => after = rule world := update keeps rfl
  exact updates.bind fun _ _ _ same => same ▸ rest

theorem map {rule : α → β} (meets : Meets guarantee act world fun value after => post (rule value) after) :
    Meets guarantee (rule <$> act) world post :=
  meets.bind fun _ _ _ done => .pure done

/-- An act that is attempted stops at a fault only. -/
theorem attempt (meets : Meets guarantee act world result) :
    Meets guarantee (attempt act) world fun outcome after => ∀ value, outcome = .ok value → result value after := by
  unfold Meets Act.attempt
  cases went : act world with
  | ok value after =>
    obtain ⟨kept, done⟩ := meets.of_ok went
    exact ⟨kept, fun _ same => Except.ok.inj same ▸ done⟩
  | error stop after =>
    obtain ⟨kept, allowed⟩ := meets.of_error went
    dsimp only
    by_cases ends : stop.isFault = true
    · rw [if_pos ends]
      exact ⟨kept, allowed⟩
    · rw [if_neg ends]
      exact ⟨kept, fun _ never => nomatch never⟩

/-! Lists of acts. -/

theorem forM {items : List β} {act : β → Act PUnit}
    (each : ∀ item ∈ items, ∀ after, guarantee.keeps world after → Meets guarantee (act item) after fun _ _ => True) :
    Meets guarantee (items.forM act) world fun _ _ => True := by
  induction items generalizing world with
  | nil => exact .pure trivial
  | cons item rest ih =>
    apply (each item List.mem_cons_self world (guarantee.refl world)).bind
    intro _ middle began _
    exact ih fun other member after later => each other (List.mem_cons_of_mem _ member) after (guarantee.trans began later)

theorem mapM_stable (result : α → World → Prop) {items : List β} {act : β → Act α}
    (each : ∀ item ∈ items, ∀ after, guarantee.keeps world after → Meets guarantee (act item) after result)
    (stable : ∀ value {before after}, guarantee.keeps before after → result value before → result value after) :
    Meets guarantee (items.mapM act) world fun values after => ∀ value ∈ values, result value after := by
  induction items generalizing world with
  | nil =>
    rw [List.mapM_nil]
    exact .pure fun _ member => by cases member
  | cons item rest ih =>
    rw [List.mapM_cons]
    apply (each item List.mem_cons_self world (guarantee.refl world)).bind
    intro first middle began found
    have later := ih fun other member after later =>
      each other (List.mem_cons_of_mem _ member) after (guarantee.trans began later)
    exact later.bind fun others _ went all => .pure (List.forall_mem_cons.mpr ⟨stable first went found, all⟩)

theorem mapM (result : α → Prop) {items : List β} {act : β → Act α}
    (each : ∀ item ∈ items, ∀ after, guarantee.keeps world after →
      Meets guarantee (act item) after fun value _ => result value) :
    Meets guarantee (items.mapM act) world fun values _ => ∀ value ∈ values, result value :=
  mapM_stable (fun value _ => result value) each fun _ _ _ _ found => found

theorem foldlM {result : α → World → Prop} {items : List β} {act : α → β → Act α} {start : α}
    (initial : result start world)
    (each : ∀ item ∈ items, ∀ value after, guarantee.keeps world after → result value after →
      Meets guarantee (act value item) after result) :
    Meets guarantee (items.foldlM act start) world result := by
  induction items generalizing world start with
  | nil => exact .pure initial
  | cons item rest ih =>
    rw [List.foldlM_cons]
    apply (each item List.mem_cons_self start world (guarantee.refl world) initial).bind
    intro value middle began found
    exact ih found fun other member value after later =>
      each other (List.mem_cons_of_mem _ member) value after (guarantee.trans began later)

/-! Acts that only look or refuse. -/

variable {ref list : Ref}

theorem demand {name : String} : Meets guarantee (demand ref name) world fun found after =>
    after = world ∧ found = ref ∧ world.isLive ref = true := by
  refine .look ?_
  split
  next live => exact .pure ⟨rfl, rfl, live⟩
  next => exact .raise

theorem element {slot : Slot} : Meets guarantee (element slot) world fun found after =>
    after = world ∧ found = slot.target := by
  rcases slot with element | ⟨target, name⟩
  · exact .pure ⟨rfl, rfl⟩
  · exact demand.weaken fun _ _ _ ⟨same, eq, _⟩ => ⟨same, eq⟩

theorem requireChangeable : Meets guarantee (requireChangeable ref) world fun _ after =>
    after = world ∧ world.isConstant ref = false := by
  refine .look ?_
  split
  next => exact .look .raise
  next changeable => exact .pure ⟨rfl, Bool.not_eq_true _ ▸ changeable⟩

theorem requireKind {allowed : Kind → Bool} {target : Kind} :
    Meets guarantee (requireKind allowed target ref) world fun _ after =>
      after = world ∧ allowed (world.kindOf ref) = true := by
  refine .look ?_
  split
  next fits => exact .pure ⟨rfl, fits⟩
  next => exact .look .raise

theorem requireRoom {extra : Nat} : Meets guarantee (requireRoom list extra) world fun _ after => after = world := by
  refine .look ?_
  dsimp only
  split
  next => exact .raise
  next => exact .pure rfl

theorem aliasOf : Meets guarantee (aliasOf ref) world fun slot after => after = world ∧ slot.target = ref :=
  .look (.pure ⟨rfl, rfl⟩)

theorem reference : Meets guarantee (reference ref) world fun slot after => after = world ∧ slot.target = ref := by
  refine .look ?_
  split
  next => exact .aliasOf
  next => exact .pure ⟨rfl, rfl⟩

theorem refuseWrite : Meets guarantee (refuseWrite ref : Act α) world result := .look .raise

/-! The length of a list. -/

variable {size index : Int} {config : Config}

/-- A list that is resized may change, its length is one that lists may have, and it either grows by zeros or is cut. -/
theorem resize {result : Unit → World → Prop}
    (grows : world.isConstant list = false → size ≤ Limits.listLength → world.length list ≤ size.toNat →
      Meets guarantee (do Act.extend list (← Act.zeros config (size.toNat - world.length list))) world result)
    (cuts : world.isConstant list = false → size ≤ Limits.listLength → 0 ≤ size → size.toNat < world.length list →
      Meets guarantee (Act.truncate list size.toNat) world result) :
    Meets guarantee (Act.resize list size config) world result := by
  unfold Act.resize
  dsimp only
  split
  next => exact .raise_bind
  next inside =>
    obtain ⟨counted, fits⟩ := not_or.mp inside
    apply Meets.requireChangeable.bind
    rintro _ after - ⟨rfl, changeable⟩
    refine .look ?_
    split
    next longer => exact grows changeable (Int.not_lt.mp fits) longer
    next shorter => exact cuts changeable (Int.not_lt.mp fits) (Int.not_lt.mp counted) (Nat.not_le.mp shorter)

/-- An index means a position that the list has, or the list grows to it where lists are not strict. -/
theorem position {result : Nat → World → Prop}
    (inside : ∀ position < world.length list, (position : Int) = (if index < 0 then world.length list + index else index) →
      result position world)
    (grows : world.length list ≤ index → config.strictLists = false →
      Meets guarantee (Act.resize list (min (index + 1) (Limits.integerBound - 1)) config) world fun _ => result index.toNat) :
    Meets guarantee (Act.position list index config) world result := by
  refine .look ?_
  split
  next negative =>
    split
    next => exact .pure (inside _ (by omega) (by rw [if_pos negative]; omega))
    next => exact .raise
  next counted =>
    split
    next => exact .pure (inside _ (by omega) (by rw [if_neg counted]; omega))
    next past =>
      split
      next => exact .raise
      next lenient =>
        exact (grows (Int.not_lt.mp past) (Bool.not_eq_true _ ▸ lenient)).bind fun _ _ _ done => .pure done

end Meets

/-- What an act stops for. -/
def stop? (act : Act α) (world : World) : Option Stop :=
  match act world with
  | .ok _ _ => none
  | .error stop _ => some stop

theorem exists_anomaly {anomaly : Anomaly} : ∃ found, Stop.anomaly anomaly = .anomaly found := ⟨anomaly, rfl⟩

/-- Whatever acts do and stop for. -/
def anything : Guarantee where
  keeps _ _ := True
  allows _ _ := True
  refl _ := trivial
  trans _ _ := trivial
  earlier _ _ := trivial
  anomalies := trivial

theorem meets_anything {α : Type} {act : Act α} : Meets anything act world fun _ _ => True := by
  unfold Meets
  split <;> exact ⟨trivial, trivial⟩

end Dialogue.Act
