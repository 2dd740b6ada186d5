import Dialogue.Proofs.ReadingAgreement
import Dialogue.Proofs.SuppliedMembers

/-! Values in worlds that differ in built-in members. No reading looks at members, so whatever can be read in a world
has the same value after scopes have got built-in members, whether it is kept, worked out or counted. -/

namespace Dialogue

/-- A body without members. -/
def Body.bare : Body → Body
  | .scope data => .scope { data with members := {}, claimed := [] }
  | body => body

theorem Body.eq_of_bare {body twin : Body} (same : twin.bare = body.bare) (solid : ∀ data, body ≠ .scope data) :
    twin = body := by
  cases body with
  | scope data => exact absurd rfl (solid data)
  | _ => cases twin <;> first | exact same | cases same

/-- What a reading sees of an object: all of it but the members. -/
def Object.bare (object : Object) : Object := { object with body := object.body.bare }

namespace Object

variable {object : Object} {members : Table Ref} {claimed : List Builtin}

private theorem bare_withMembers : (object.withMembers members claimed).bare = object.bare := by
  obtain ⟨name, body, constant, parent⟩ := object
  cases body <;> rfl

end Object

namespace World

variable {known : Ref → Prop} {world beside after : World} {ref other list : Ref} {config : Config}

/-- One world shows beside another one what is known in both, and what is known holds nothing else. -/
structure Shown (known : Ref → Prop) (world beside : World) : Prop where
  settings : beside.config = world.config
  live : ∀ {ref}, world.isLive ref = true ↔ known ref
  objects : ∀ {ref}, known ref → (beside.object? ref).map Object.bare = (world.object? ref).map Object.bare
  fullNames : ∀ {ref}, known ref → beside.fullName ref = world.fullName ref
  holds : ∀ {holder held}, held ∈ world.holdsOf holder → known held

namespace Shown

variable (shown : Shown known world beside)

include shown

/-- Whatever is seen of bare objects is seen alike. -/
theorem view {α : Type} (view : Option Object → α) (blind : ∀ object, view (some object) = view (some object.bare))
    (inside : known ref) : view (beside.object? ref) = view (world.object? ref) := by
  obtain ⟨object, found⟩ := Option.isSome_iff_exists.mp (shown.live.mpr inside)
  have same := shown.objects inside
  rw [found] at same
  obtain ⟨twin, there, same⟩ := Option.map_eq_some_iff.mp same
  rw [found, there, blind twin, same, ← blind]

theorem stays (live : world.isLive ref = true) : beside.isLive ref = true :=
  (shown.view Option.isSome (fun _ => rfl) (shown.live.mp live)).trans live

theorem nameOf (inside : known ref) : beside.nameOf ref = world.nameOf ref :=
  shown.view (fun object => object.elim "" (·.name)) (fun _ => rfl) inside

theorem body? (inside : known ref) : (beside.body? ref).map Body.bare = (world.body? ref).map Body.bare := by
  rw [World.body?, World.body?, Option.map_map, Option.map_map]
  have same := congrArg (Option.map (·.body)) (shown.objects inside)
  rwa [Option.map_map, Option.map_map] at same

theorem list? (inside : known ref) : beside.list? ref = world.list? ref := by
  rw [list?_eq_bind, list?_eq_bind]
  refine shown.view (·.bind Object.list?) (fun object => ?_) inside
  obtain ⟨name, body, constant, parent⟩ := object
  cases body <;> rfl

theorem storage? (inside : known ref) : beside.storage? ref = world.storage? ref := by
  have read (world : World) : world.storage? ref = (world.object? ref).bind Object.storage? := by
    rw [storage?_eq, content?]
    cases world.object? ref <;> rfl
  rw [read, read]
  refine shown.view (·.bind Object.storage?) (fun object => ?_) inside
  obtain ⟨name, body, constant, parent⟩ := object
  cases body <;> rfl

theorem block? (inside : known ref) : beside.block? ref = world.block? ref := by
  have role : beside.role? ref = world.role? ref := by
    rw [role?, role?, scope?_eq, scope?_eq]
    refine shown.view (fun found => (found.bind Object.scope?).map (·.role)) (fun object => ?_) inside
    obtain ⟨name, body, constant, parent⟩ := object
    cases body <;> rfl
  rw [World.block?, role, World.block?]

theorem slots (inside : known list) : beside.slots list = world.slots list := by
  rw [World.slots, shown.list? inside, World.slots]

theorem isBusy (inside : known list) : beside.isBusy list = world.isBusy list := by
  rw [World.isBusy, shown.list? inside, World.isBusy]

/-- A change that readings make, in both worlds. -/
theorem change {rule : Object → Object} (bare : ∀ object, (rule object).bare = rule object.bare)
    (outside : ∀ object, (rule object).outside = object.outside)
    (holds : ∀ holder, (world.change ref rule).holdsOf holder = world.holdsOf holder) :
    Shown known (world.change ref rule) (beside.change ref rule) := by
  have fullName (world : World) (other : Ref) : (world.change ref rule).fullName other = world.fullName other := by
    refine fullName_of_outside (fun other => ?_) heap_size_change
    rw [outside?, object?_change, outside?]
    split
    · rw [Option.map_map]
      exact congrArg (Option.map · _) (funext outside)
    · rfl
  refine ⟨shown.settings, fun {other} => ?_, fun {other} inside => ?_, fun inside => ?_, fun {holder held} member => ?_⟩
  · rw [← shown.live, isLive_change]
  · rw [object?_change, object?_change]
    split
    · rw [Option.map_map, Option.map_map]
      simp only [Function.comp_def, bare]
      simpa only [Option.map_map, Function.comp_def] using congrArg (Option.map rule) (shown.objects inside)
    · exact shown.objects inside
  · rw [fullName, fullName, shown.fullNames inside]
  · exact shown.holds (holds holder ▸ member)

theorem setBusy {busy : Bool} : Shown known (world.setBusy list busy) (beside.setBusy list busy) := by
  refine shown.change (fun object => ?_) (fun object => ?_) fun _ => holdsOf_setBusy
  all_goals
    obtain ⟨name, body, constant, parent⟩ := object
    cases body <;> rfl

theorem evaluate {value : Scalar} (inside : known ref) :
    Shown known (world.evaluate ref value config) (beside.evaluate ref value config) := by
  have holds (holder : Ref) : (world.evaluate ref value config).holdsOf holder = world.holdsOf holder :=
    Undisturbed.evaluate.holdsOf
  unfold World.evaluate at holds ⊢
  rw [shown.storage? inside]
  cases found : world.storage? ref with
  | none => exact shown
  | some storage =>
    rw [found] at holds
    refine shown.change (fun object => ?_) (fun object => ?_) holds
    all_goals
      obtain ⟨name, body, constant, parent⟩ := object
      cases body <;> rfl

end Shown

end World

namespace Act

open World

variable {known : Ref → Prop} {world beside : World} {ref list : Ref} {config : Config} {read other : Ref → Act Scalar}

/-- What is read alike wherever it is shown. -/
def ReadsShown (known : Ref → Prop) (read other : Ref → Act Scalar) : Prop :=
  ∀ ref world beside, known ref → Shown known world beside → Agrees (Shown known) (read ref) world (other ref) beside

/-- An element is held, and so it is known, or it is found to live. -/
private theorem agrees_element {α : Type} {slot : Slot} {next following : Ref → Act α}
    (shown : Shown known world beside)
    (held : ∀ element ∈ slot.held?, known element) (rest : known slot.target →
      Agrees (Shown known) (next slot.target) world (following slot.target) beside) :
    Agrees (Shown known) (element slot >>= next) world (element slot >>= following) beside := by
  rcases slot with element | ⟨target, name⟩
  · exact rest (held element rfl)
  · exact .demand shown.stays fun live => rest (shown.live.mp live)

theorem ReadsShown.flattenWith (reads : ReadsShown known read other) (inside : known list)
    (shown : Shown known world beside) :
    Agrees (Shown known) (flattenWith read config list) world (flattenWith other config list) beside := by
  refine .look (shown.isBusy inside) ?_
  split
  next => exact .pure shown
  next =>
    have entered : Shown known (world.setBusy list true) (beside.setBusy list true) := shown.setBusy
    refine .whileBusy (.look (entered.slots inside) ?_) fun same => Shown.setBusy same
    have held (slot : Slot) (member : slot ∈ (world.setBusy list true).slots list) (element : Ref)
        (holds : element ∈ slot.held?) : known element := entered.holds (mem_holdsOf_of_slot member holds)
    refine .foldlM entered fun slot member text after last same => ?_
    refine agrees_element same (held slot member) fun known => ?_
    exact (reads _ _ _ known same).bind fun _ _ _ went => .compute_bind fun _ _ => .pure went

theorem ReadsShown.readBinding (reads : ReadsShown known read other) {binding : Binding}
    (shown : Shown known world beside) :
    Agrees (Shown known) (readBinding read config binding) world (readBinding other config binding) beside := by
  cases binding with
  | cell => exact .pure shown
  | length list name =>
    refine .demand shown.stays fun live => .look ?_ (.pure shown)
    exact congrArg List.length (shown.slots (shown.live.mp live))
  | precision target name =>
    refine .demand shown.stays fun live => ?_
    exact (reads target world beside (shown.live.mp live) shown).bind fun _ _ _ same => .pure same
  | ownerName owner => exact .demand shown.stays fun live => .look (shown.nameOf (shown.live.mp live)) (.pure shown)
  | beenSaid block => exact .demand shown.stays fun live => .look (shown.block? (shown.live.mp live)) (.pure shown)
  | setting which => cases which <;> exact .look shown.settings (.pure shown)

theorem ReadsShown.readFormula (reads : ReadsShown known read other) {formula : Formula} {memo : Memo}
    (found : world.storage? ref = some (.derived formula memo)) (shown : Shown known world beside) :
    Agrees (Shown known) (readFormula read config formula) world (readFormula other config formula) beside := by
  cases formula with
  | fullName owner => exact .demand shown.stays fun live => .look (shown.fullNames (shown.live.mp live)) (.pure shown)
  | text list =>
    have inside : known list := shown.holds (mem_holdsOf_of_text found)
    exact (reads.flattenWith inside shown).bind fun _ _ _ same => .pure same
  | calls | pi => exact .pure shown

theorem ReadsShown.valueWith (reads : ReadsShown known read other) :
    ReadsShown known (valueWith read config) (valueWith other config) := by
  intro ref world beside inside shown
  have named : Agrees (Shown known) (do return Scalar.text (← see (·.fullName ref))) world
      (do return Scalar.text (← see (·.fullName ref))) beside := .look (shown.fullNames inside) (.pure shown)
  refine .look_both ?_
  have bodies := shown.body? inside
  cases here : world.body? ref with
  | none =>
    rw [here, Option.map_none, Option.map_eq_none_iff] at bodies
    rw [bodies]
    exact named
  | some body =>
    rw [here] at bodies
    obtain ⟨twin, there, same⟩ := Option.map_eq_some_iff.mp bodies
    rw [there]
    cases body with
    | var storage =>
      obtain rfl : twin = .var storage := Body.eq_of_bare same fun _ => nofun
      have found := storage?_eq_some.mpr here
      cases storage with
      | stored value => exact .pure shown
      | bound binding => exact reads.readBinding shown
      | derived formula memo =>
        dsimp only
        split
        next => exact .pure shown
        next =>
          refine (reads.readFormula found shown).bind fun value after last same => ?_
          have done : Shown known (after.evaluate ref value config) (last.evaluate ref value config) := same.evaluate inside
          exact .pure done
    | list data =>
      obtain rfl : twin = .list data := Body.eq_of_bare same fun _ => nofun
      exact (reads.flattenWith inside shown).bind fun _ _ _ went => .pure went
    | plain =>
      obtain rfl : twin = .plain := Body.eq_of_bare same fun _ => nofun
      exact named
    | scope data =>
      cases twin with
      | scope => exact named
      | _ => cases same

private theorem readsShown_valueWithin (fuel more : Nat) :
    ReadsShown known (valueWithin fuel config) (valueWithin more config) := by
  induction fuel generalizing more with
  | zero => exact fun ref world _ _ _ => .of_error rfl
  | succ fuel ih =>
    cases more with
    | zero => exact fun ref world _ _ _ => .exhausted rfl
    | succ more => exact (ih more).valueWith

end Act

namespace World

variable {names : String → Prop} {world after : World} {ref : Ref} {config : Config} {value : Scalar}

theorem Supplied.fullName (supplied : Supplied names world after) (sound : world.Sound) (soundAfter : after.Sound)
    (live : world.isLive ref = true) : after.fullName ref = world.fullName ref := by
  have older {other : Ref} (above : other ∈ world.lineage ref) : other < world.heap.size :=
    lt_size_of_isLive (sound.forest.isLive_of_mem_lineage live above)
  have walk : after.Lineage ref (world.lineage ref) :=
    (sound.forest.lineage ref).of_owner?_eq fun other above => supplied.owner? (older above)
  rw [World.fullName, walk.eq_lineage soundAfter.forest.isLive_of_owner?, World.fullName]
  refine congrArg Identifier.join (List.map_congr_left fun other above => ?_)
  exact supplied.nameOf (older (List.mem_reverse.mp above))

theorem Supplied.shown (supplied : Supplied names world after) (sound : world.Sound) (soundAfter : after.Sound) :
    Shown (world.isLive · = true) world after where
  settings := by rw [supplied.rest]
  live := .rfl
  objects live := by
    rw [supplied.objects _ (lt_size_of_isLive live), Option.map_map]
    exact congrArg (Option.map · _) (funext fun _ => Object.bare_withMembers)
  fullNames := supplied.fullName sound soundAfter
  holds := sound.held

/-- What can be read has the same value after built-in members have been made. -/
theorem HasValue.supplied (has : world.HasValue config ref value) (supplied : Supplied names world after)
    (sound : world.Sound) (soundAfter : after.Sound) (live : world.isLive ref = true) :
    after.HasValue config ref value := by
  obtain ⟨last, ran⟩ := has
  have agrees : Act.Agrees (Shown (world.isLive · = true)) (Act.value config ref) world (Act.value config ref) after :=
    Act.readsShown_valueWithin _ _ ref world after live (supplied.shown sound soundAfter)
  obtain ⟨_, final, went, rfl, -⟩ := agrees.gives ran (Act.meets_value soundAfter.ordered)
  exact ⟨final, went⟩

end World

end Dialogue
