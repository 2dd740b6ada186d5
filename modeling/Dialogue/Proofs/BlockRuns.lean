import Dialogue.Proofs.AssignmentBounds

/-! What runs of blocks come to. All runs of a block say their texts to one place, which every run clears when it
begins. A run gives what its own body has said if no run of the same block lies inside. What it gives is a new
variable, which later runs leave as it is as long as no list refers to it. -/

namespace Dialogue

/-- The course that a body takes. A run inside that fails ends it, unless the failure is caught. -/
inductive Course where
  | done
  | say (text : String) (rest : Course)
  | fail (cause : Cause)
  | run (block argument : Ref) (inner : Course) (caught : Bool) (rest : Course)

namespace Course

/-- What a body says itself if it ends well. -/
def said : Course → String
  | done => ""
  | say text rest => text ++ rest.said
  | fail _ => ""
  | run _ _ _ _ rest => rest.said

/-- Whether no runs of some blocks lie inside, however deep. -/
def Avoids (mute : Ref → Prop) : Course → Prop
  | say _ rest => rest.Avoids mute
  | run block _ inner _ rest => ¬ mute block ∧ inner.Avoids mute ∧ rest.Avoids mute
  | _ => True

private theorem avoids_nothing (course : Course) : course.Avoids fun _ => False := by
  induction course with
  | done => trivial
  | say _ _ ih => exact ih
  | fail _ => trivial
  | run _ _ _ _ _ inner rest => exact ⟨not_false, inner, rest⟩

end Course

namespace Act

/-- Operates with a body that lets go of all that it kept when it ends. -/
def operateBody (run : Ref → Act Unit) (operator argument : Ref) : Act Ref :=
  operateWith (fun running => lettingGo (fun _ => []) (run running)) operator argument

/-- Runs a block inside of a body, which keeps what it runs and what comes of it. -/
def runInside (run : Ref → Act Unit) (block argument : Ref) (caught : Bool) : Act Unit := do
  requireBlock block
  let block ← keep block
  let argument ← keep (← demand argument "")
  match ← attempt (operateBody run block argument) with
  | .ok result => let _ ← keep result
  | .error stop => unless caught do throw stop

/-- Takes a course for a block that is running. -/
def enact (running : Ref) : Course → Act Unit
  | .done => return
  | .say text rest => do
    say running text
    enact running rest
  | .fail cause => raise cause
  | .run block argument inner caught rest => do
    runInside (fun running => enact running inner) block argument caught
    enact running rest

/-- Runs a block whose body takes a course. -/
def runCourse (course : Course) (block argument : Ref) : Act Ref :=
  operateBody (fun running => enact running course) block argument

end Act

namespace World

variable {world after last : World} {region mute : Ref → Prop} {block ref other : Ref}

/-! What blocks have said. -/

private theorem out_of_block? : (world.block? ref).elim "" (·.out) = world.out ref := by
  rw [block?, role?, scope?_eq, out]
  cases world.object? ref with
  | none => rfl
  | some object =>
    obtain ⟨name, body, constant, parent⟩ := object
    rcases body with - | ⟨role, members, imports, claimed⟩ | - | -
    case scope => cases role <;> rfl
    all_goals rfl

private theorem object?_of_isBlock (isBlock : world.kindOf ref = .block) : ∃ object data blockData,
    world.object? ref = some object ∧ object.body = .scope data ∧ data.role = .block blockData := by
  have isScope : (world.kindOf ref).isScope = true := by rw [isBlock]; rfl
  obtain ⟨object, data, found, body⟩ := object?_of_isScope isScope
  rw [kindOf, found, Option.elim_some, Object.kind, body] at isBlock
  cases role : data.role with
  | block blockData => exact ⟨object, data, blockData, found, body, role⟩
  | bare => simp [role] at isBlock
  | operator _ => simp [role] at isBlock

private theorem role?_of_isBlock (isBlock : world.kindOf ref = .block) :
    ∃ data, world.role? ref = some (.block data) := by
  obtain ⟨object, data, blockData, found, body, role⟩ := object?_of_isBlock isBlock
  exact ⟨blockData, by simp [role?, scope?_eq, found, Object.scope?, body, role]⟩

private theorem out_changeBlock (edit : String → String) {rule : BlockData → BlockData}
    (same : ∀ data, (rule data).out = edit data.out) (isBlock : world.kindOf ref = .block) :
    (world.changeBlock ref rule).out ref = edit (world.out ref) := by
  obtain ⟨object, data, blockData, found, body, role⟩ := object?_of_isBlock isBlock
  rw [out, out, changeBlock, changeScope, object?_change, if_pos rfl, found]
  simp [Object.out, ScopeData.out, body, role, same]

private theorem out_changeBlock_other {rule : BlockData → BlockData} (apart : ref ≠ other) :
    (world.changeBlock ref rule).out other = world.out other := by
  rw [out, out, changeBlock, changeScope, object?_change, if_neg apart]

/-! What runs leave alone. -/

/-- What becomes of a world by runs: texts outside of a region stay, and mute blocks say nothing. -/
structure Spared (region mute : Ref → Prop) (world after : World) : Prop where
  size : world.heap.size ≤ after.heap.size
  alive : ∀ ref < world.heap.size, after.isLive ref = true → world.isLive ref = true
  texts : ∀ {ref text}, ¬ region ref → world.storage? ref = some (.stored (.text text)) → after.isLive ref = true →
    after.storage? ref = some (.stored (.text text))
  closed : world.Closed region → after.Closed region
  said : ∀ ref < world.heap.size, mute ref → after.isLive ref = true → after.out ref = world.out ref

theorem Spared.trans (first : Spared region mute world after) (second : Spared region mute after last) :
    Spared region mute world last where
  size := first.size.trans second.size
  alive ref old live := first.alive ref old (second.alive ref (old.trans_le first.size) live)
  texts outside stored live := by
    have old := lt_size_of_isLive (isLive_of_content? (content?_eq_some_var.mpr stored))
    have between := second.alive _ (old.trans_le first.size) live
    exact second.texts outside (first.texts outside stored between) live
  closed closed := second.closed (first.closed closed)
  said ref old silent live := by
    have grown := old.trans_le first.size
    exact (second.said ref grown silent live).trans (first.said ref old silent (second.alive ref grown live))

theorem Confined.spared (confined : Confined region (fun _ => False) False world after) :
    Spared region mute world after where
  size := confined.size
  alive _ old live := confined.isLive old live
  texts := confined.texts
  closed := confined.closed
  said _ old _ live := confined.out old live

private theorem spared_changeBlock {rule : BlockData → BlockData} (loud : ¬ mute block) :
    Spared region mute world (world.changeBlock block rule) where
  size := heap_size_change.ge
  alive ref _ live := by rwa [changeBlock, changeScope, isLive_change] at live
  texts _ stored _ := by rwa [storage?_eq, changeBlock, content?_changeScope, ← storage?_eq]
  closed closed := by
    refine ⟨fun ref fresh => closed.new ref ?_, fun near inside => closed.slots near ?_⟩
    · rwa [changeBlock, changeScope, heap_size_change] at fresh
    · rwa [changeBlock, slots_of_content? content?_changeScope] at inside
  said ref _ silent _ := out_changeBlock_other fun same => loud (same ▸ silent)

/-- Whether what lies outside of a region are variables that no list in it refers to, or that have gone. -/
structure Sealed (region : Ref → Prop) (world : World) : Prop where
  sound : world.Sound
  closed : world.Closed region
  outside : ∀ ref, ¬ region ref → ref < world.heap.size ∧ (world.isLive ref = true → world.kindOf ref = .var)

namespace Sealed

private theorem everywhere (sound : world.Sound) : Sealed (fun _ => True) world :=
  ⟨sound, closed_everything, fun _ never => absurd trivial never⟩

variable (sealed : Sealed region world)

include sealed

theorem later {freedom : Freedom} (closed : after.Closed region) (sound : after.Sound)
    (follows : Act.Follows freedom world after) : Sealed region after := by
  refine ⟨sound, closed, fun ref apart => ?_⟩
  obtain ⟨old, isVar⟩ := sealed.outside ref apart
  refine ⟨old.trans_le follows.evolves.size_le, fun live => ?_⟩
  obtain ⟨lived, same⟩ := follows.evolves.before old live
  exact same.trans (isVar lived)

theorem near (live : world.isLive ref = true) (other : world.kindOf ref ≠ .var) : region ref := by
  by_contra apart
  exact other ((sealed.outside ref apart).2 live)

theorem fenced : Act.Fenced region (fun _ => False) False world :=
  ⟨sealed.sound, sealed.closed, False.elim, fun _ => False.elim, fun _ => False.elim, fun _ => False.elim⟩

theorem use {refs : List Ref} (alive : ∀ ref ∈ refs, world.isLive ref = true) :
    Sealed region { world with inUse := refs ++ world.inUse } := by
  have follows := Act.follows_use sealed.sound alive
  have kept : Confined region (fun _ => False) False world { world with inUse := refs ++ world.inUse } := confined_use
  exact sealed.later (kept.closed sealed.closed) (follows.sound sealed.sound) follows

end Sealed

/-- Whether an object is a block in use, which it stays for as long as it is in use. -/
structure Runnable (block : Ref) (world : World) : Prop where
  sound : world.Sound
  isBlock : world.kindOf block = .block
  used : block ∈ world.inUse

theorem Runnable.later {freedom : Freedom} (runnable : Runnable block world) (sound : after.Sound)
    (follows : Act.Follows freedom world after) : Runnable block after := by
  have used := follows.mem_inUse runnable.used
  have old := lt_size_of_isLive (runnable.sound.inUse runnable.used)
  exact ⟨sound, (follows.evolves.before old (sound.inUse used)).2.trans runnable.isBlock, used⟩

end World

namespace Act

open World

variable {α : Type} {world : World} {region steady mute : Ref → Prop} {guarded : Prop}
  {block argument running : Ref} {config : Config}

/-! Safety. -/

private theorem isLive_of_isBlock (isBlock : (world.kindOf block == .block) = true) : world.isLive block = true :=
  isLive_of_isScope (by rw [eq_of_beq isBlock]; rfl)

theorem Runs.lettingGo {run : Ref → Act Unit} (runs : Runs run) :
    Runs fun running => Act.lettingGo (fun _ => []) (run running) :=
  fun block world used =>
    (runs block world used).lettingGo _ (fun _ _ _ _ _ member => nomatch member) fun _ _ _ _ done => done

theorem Runs.operateBody {run : Ref → Act Unit} (runs : Runs run) : Operates (operateBody run) :=
  runs.lettingGo.operateWith

theorem safe_runInside {run : Ref → Act Unit} {caught : Bool} (runs : Runs run) :
    Safe .burying (runInside run block argument caught) world fun _ _ => True := by
  apply safe_requireKind.bind
  rintro _ world - - ⟨rfl, isBlock⟩
  apply (safe_keep (isLive_of_isBlock isBlock)).bind
  rintro block _ - - ⟨rfl, rfl⟩
  apply safe_demand.bind
  rintro found _ - - ⟨rfl, rfl, live⟩
  apply (safe_keep live).bind
  rintro argument _ - - ⟨rfl, rfl⟩
  have operates := runs.operateBody block argument
  apply (safe_attempt (operates _ (by simp) (by simp))).bind
  intro outcome _ _ _ lives
  split
  next result => exact (safe_keep (lives result rfl)).bind fun _ _ _ _ _ => .pure trivial
  next =>
    split
    next => exact .pure trivial
    next => exact .throw

private theorem safe_enact (course : Course) : Safe .burying (enact running course) world fun _ _ => True := by
  induction course generalizing running world with
  | done => exact .pure trivial
  | say text rest ih => exact safe_say.bind fun _ _ _ _ _ => ih
  | fail cause => exact .raise
  | run block argument inner caught rest ihInner ihRest =>
    have runs : Runs fun running => enact running inner := fun _ _ _ => ihInner
    exact (safe_runInside runs).bind fun _ _ _ _ _ => ihRest

theorem runs_enact (course : Course) : Runs fun running => enact running course := fun _ _ _ => safe_enact course

/-! What runs keep. -/

/-- What runs do that leave texts and mute blocks alone. -/
def spares (region mute : Ref → Prop) : Guarantee where
  keeps := Spared region mute
  allows _ _ := True
  refl _ := Confined.refl.spared
  trans := .trans
  earlier _ allowed := allowed
  anomalies := trivial

theorem Meets.spares {act : Act α} {result : α → World → Prop}
    (meets : Meets (Act.confined region (fun _ => False) False) act world result) :
    Meets (Act.spares region mute) act world result :=
  meets.relax Confined.spared fun _ => trivial

private theorem confines_push {list object : Ref} (fenced : Fenced region steady guarded world)
    (near : world.kindOf object ≠ .var → region object) (free : guarded → ¬ steady list) :
    Meets (confined region steady guarded) (push list object config) world fun _ _ => True := by
  apply Meets.requireChangeable.bind
  rintro _ after - ⟨rfl, -⟩
  apply Meets.requireRoom.bind
  rintro _ _ - rfl
  apply (confines_copy fenced near).bind
  intro slot _ _ within
  apply (confines_extend (List.forall_mem_singleton.mpr within) free).bind
  exact fun _ _ _ _ => Meets.element.forget

private theorem confines_listMember {scope : Ref} {builtin : Builtin} :
    Meets (confined region steady guarded) (listMember scope builtin) world fun list after => after.kindOf list = .list := by
  apply confines_member?.bind
  intro found after _ _
  split
  next => exact .look .raise
  next list =>
    apply Meets.requireKind.bind
    rintro _ _ - ⟨rfl, isList⟩
    exact .pure (eq_of_beq isList)

private theorem confines_bindInput (sealed : Sealed region world) (given : argument ∈ world.inUse) :
    Meets (confined region (fun _ => False) False) (bindInput block argument config) world fun _ _ => True := by
  apply (confines_listMember.with_safe sealed.sound safe_input).bind
  rintro list after kept ⟨isList, sound, began, live⟩
  have within := sealed.later (kept.closed sealed.closed) sound began
  have held := within.use (List.forall_mem_singleton.mpr live)
  have near := within.near live (by rw [isList]; exact Kind.noConfusion)
  have given := List.mem_append_right [list] (began.mem_inUse given)
  refine Meets.confined_holding (.look ?_)
  split
  next listed =>
    have origin := held.near (held.sound.inUse given) (by rw [listed]; exact Kind.noConfusion)
    exact .look (confines_assignListWithin _ _ _ _ _ held.fenced isList near origin List.mem_cons_self)
  next =>
    apply ((confines_resize held.closed False.elim).with_safe held.sound safe_resize).bind
    rintro _ last went ⟨-, sound, ended, -⟩
    have later := held.later (went.closed held.closed) sound ended
    have lives := sound.inUse (ended.mem_inUse given)
    exact (confines_push later.fenced (later.near lives) False.elim).bind fun _ _ _ _ => .pure trivial

/-! Runs. -/

/-- A block that is operated gets its input before its body runs. -/
private theorem meets_operateWith {guarantee : Guarantee} {run : Ref → Act Unit} {result : Ref → World → Prop}
    (runnable : Runnable block world) (given : argument ∈ world.inUse)
    (binds : Meets guarantee (bindInput block argument world.config) world fun _ _ => True)
    (rest : ∀ after, guarantee.keeps world after → after.Sound → Follows .burying world after →
      Meets guarantee (do
        update (·.changeBlock block fun data => { data with out := "" })
        run block
        update (·.changeBlock block fun data => { data with beenSaid := true })
        addValue "" (.text ((← see (·.block? block)).elim "" (·.out)))) after result) :
    Meets guarantee (operateWith run block argument) world result := by
  refine .look ?_
  apply (binds.with_safe runnable.sound (safe_bindInput given)).bind
  rintro _ after kept ⟨-, sound, began, -⟩
  have ends := rest after kept sound began
  refine .look ?_
  split
  next rule operator =>
    obtain ⟨data, role⟩ := role?_of_isBlock (runnable.later sound began).isBlock
    rw [role] at operator
    cases operator
  next => exact ends

private theorem spares_changeBlock {rule : BlockData → BlockData} (loud : ¬ mute block) :
    Meets (spares region mute) (update (·.changeBlock block rule)) world fun _ _ => True :=
  .update (spared_changeBlock loud) trivial

theorem spares_keep : Meets (spares region mute) (keep block) world fun kept after =>
    kept = block ∧ after = { world with inUse := block :: world.inUse } := by
  have kept : Confined region (fun _ => False) False world { world with inUse := [block] ++ world.inUse } := confined_use
  exact .update_bind kept.spared (.pure ⟨rfl, rfl⟩)

variable {run : Ref → Act Unit} {caught : Bool}

/-- What a run gives is new. Its block may say what it likes. -/
private theorem spares_operateBody
    (spared : ∀ world, Sealed region world → Meets (spares region mute) (run block) world fun _ _ => True)
    (sealed : Sealed region world) (runnable : Runnable block world) (given : argument ∈ world.inUse)
    (loud : ¬ mute block) :
    Meets (spares region mute) (operateBody run block argument) world fun made _ => world.heap.size ≤ made := by
  apply meets_operateWith runnable given (confines_bindInput sealed given).spares
  intro after kept sound began
  have within := sealed.later (kept.closed sealed.closed) sound began
  apply ((spares_changeBlock loud).with_safe sound safe_changeBlock).bind
  rintro _ before cleared ⟨-, sound, went, -⟩
  have ran : Meets (spares region mute) (lettingGo (fun _ => []) (run block)) before fun _ _ => True :=
    (spared before (within.later (cleared.closed within.closed) sound went)).lettingGo
      (fun kept => kept.trans confined_settle.spared) (fun _ => trivial) fun _ _ _ => trivial
  apply ran.bind
  intro _ _ later _
  refine .update_bind (spared_changeBlock loud) (.look (confines_addValue.spares.weaken ?_))
  rintro made last - rfl
  rw [changeBlock, changeScope, heap_size_change]
  exact kept.size.trans (cleared.size.trans later.size)

private theorem spares_runInside
    (spared : ∀ block world, ¬ mute block → Sealed region world →
      Meets (spares region mute) (run block) world fun _ _ => True)
    (sealed : Sealed region world) (loud : ¬ mute block) :
    Meets (spares region mute) (runInside run block argument caught) world fun _ _ => True := by
  apply Meets.requireKind.bind
  rintro _ world - ⟨rfl, isBlock⟩
  apply spares_keep.bind
  rintro block _ - ⟨rfl, rfl⟩
  apply Meets.demand.bind
  rintro found _ - ⟨rfl, rfl, live⟩
  apply spares_keep.bind
  rintro argument _ - ⟨rfl, rfl⟩
  have held : Sealed region { world with inUse := [argument, block] ++ world.inUse } := sealed.use (by
    simpa using ⟨live, isLive_of_isBlock isBlock⟩)
  have runnable : Runnable block { world with inUse := [argument, block] ++ world.inUse } :=
    ⟨held.sound, eq_of_beq isBlock, by simp⟩
  have ran := spares_operateBody (spared block · loud) held runnable List.mem_cons_self loud
  apply ran.attempt.bind
  intro outcome _ _ _
  split
  next => exact spares_keep.bind fun _ _ _ _ => .pure trivial
  next =>
    split
    next => exact .pure trivial
    next => exact .throw trivial

private theorem spares_enact (course : Course) (avoids : course.Avoids mute) (sealed : Sealed region world)
    (loud : ¬ mute running) :
    Meets (spares region mute) (enact running course) world fun _ _ => True := by
  induction course generalizing running world with
  | done => exact .pure trivial
  | say text rest ih =>
    apply ((spares_changeBlock loud).with_safe sealed.sound safe_say).bind
    rintro _ after kept ⟨-, sound, began, -⟩
    exact ih avoids (sealed.later (kept.closed sealed.closed) sound began) loud
  | fail cause => exact .raise
  | run block argument inner caught rest ihInner ihRest =>
    -- The block that runs inside is not mute either, so the body inside is as free as this one.
    obtain ⟨apart, avoidsInner, avoidsRest⟩ := avoids
    have ran : Meets (spares region mute) (runInside _ block argument caught) world _ :=
      spares_runInside (fun _ _ loud sealed => ihInner avoidsInner sealed loud) sealed apart
    apply (ran.with_safe sealed.sound (safe_runInside (runs_enact inner))).bind
    rintro _ after kept ⟨-, sound, began, -⟩
    exact ihRest avoidsRest (sealed.later (kept.closed sealed.closed) sound began) loud

/-! What a run says. -/

private theorem out_settle {kept : List Ref} (sound : world.Sound) (before : kept <:+ world.inUse)
    (used : block ∈ kept) :
    (world.settle kept).out block = world.out block := by
  have settles : World.Evolves .releasing world (world.settle ([] ++ kept)) :=
    evolves_settle sound (fun _ none => nomatch none) before
  have live := (settles.sound sound).inUse (by rwa [inUse_settle])
  have confined : Confined (fun _ => True) (fun _ => False) False world (world.settle kept) := confined_settle
  exact confined.out (lt_size_of_isLive (sound.inUse (before.subset used))) live

theorem meets_changeBlock (edit : String → String) {rule : BlockData → BlockData}
    (same : ∀ data, (rule data).out = edit data.out) (runnable : Runnable block world) :
    Meets anything (update (·.changeBlock block rule)) world fun _ after =>
      after.out block = edit (world.out block) ∧ Runnable block after := by
  have changes : Meets anything (update (·.changeBlock block rule)) world fun _ after =>
      after.out block = edit (world.out block) := .update trivial (out_changeBlock edit same runnable.isBlock)
  apply (changes.with_safe runnable.sound safe_changeBlock).weaken
  rintro _ after - ⟨changed, sound, began, -⟩
  exact ⟨changed, runnable.later sound began⟩

/-- A block says nothing while another one runs, if no run of it lies inside. -/
private theorem silent_runInside {inner : Course} {other : Ref} (avoids : inner.Avoids (· = block))
    (apart : other ≠ block)
    (runnable : Runnable block world) :
    Meets anything (runInside (fun running => enact running inner) other argument caught) world fun _ after =>
      after.out block = world.out block ∧ Runnable block after := by
  have ran : Meets (spares (fun _ => True) (· = block)) (runInside _ other argument caught) world _ :=
    spares_runInside (fun _ _ loud sealed => spares_enact inner avoids sealed loud) (.everywhere runnable.sound) apart
  have led := ran.with_safe runnable.sound (safe_runInside (runs_enact inner))
  refine (led.weaken ?_).relax (fun _ => trivial) fun _ => trivial
  rintro _ after kept ⟨-, sound, began, -⟩
  have later := runnable.later sound began
  have old := lt_size_of_isLive (runnable.sound.inUse runnable.used)
  exact ⟨kept.said block old rfl (sound.inUse later.used), later⟩

/-- As long as no run of the same block lies inside, a body adds what it says itself. -/
private theorem says_enact (course : Course) (avoids : course.Avoids (· = block)) (runnable : Runnable block world) :
    Meets anything (enact block course) world fun _ after =>
      after.out block = world.out block ++ course.said ∧ Runnable block after := by
  induction course generalizing world with
  | done => exact .pure ⟨String.append_empty.symm, runnable⟩
  | say text rest ih =>
    apply (meets_changeBlock (· ++ text) (fun _ => rfl) runnable).bind
    rintro _ after - ⟨added, later⟩
    rw [Course.said, ← String.append_assoc, ← added]
    exact ih avoids later
  | fail cause => exact .raise
  | run other argument inner caught rest ihInner ihRest =>
    obtain ⟨apart, avoidsInner, avoidsRest⟩ := avoids
    apply (silent_runInside avoidsInner apart runnable).bind
    rintro _ after - ⟨same, later⟩
    rw [← same]
    exact ihRest avoidsRest later

end Act

namespace World

variable {world after : World} {block argument ref : Ref} {text : String}

/-- Whether an object is a variable that keeps a text, and that no list refers to. -/
structure OwnText (world : World) (ref : Ref) (text : String) : Prop where
  stored : world.storage? ref = some (.stored (.text text))
  apart : ∀ {list slot}, slot ∈ world.slots list → slot.target ≠ ref

private theorem slots_eq_nil_of_storage? {storage : Storage} (found : world.storage? ref = some storage) :
    world.slots ref = [] := by
  rw [slots, list?_eq, content?_eq_some_var.mpr found]
  rfl

private theorem ownText_add (sound : world.Sound) :
    (world.add { name := "", body := .var (.stored (.text text)) }).OwnText world.heap.size text := by
  refine ⟨by rw [storage?_eq_bind, object?_add, if_pos rfl]; rfl, fun {list slot} inside => ?_⟩
  rw [slots_add] at inside
  split at inside
  · cases inside
  · exact Nat.ne_of_lt (sound.knows inside).target

theorem OwnText.sealed (own : world.OwnText ref text) (sound : world.Sound) : Sealed (· ≠ ref) world := by
  have live := isLive_of_content? (content?_eq_some_var.mpr own.stored)
  have old := lt_size_of_isLive live
  refine ⟨sound, ⟨fun other fresh => Nat.ne_of_gt (old.trans_le fresh), fun _ inside => own.apart inside⟩, ?_⟩
  intro other here
  rw [not_not.mp here]
  exact ⟨old, fun _ => kindOf_of_storage? own.stored⟩

theorem OwnText.later {mute : Ref → Prop} (own : world.OwnText ref text) (sound : world.Sound)
    (spared : Spared (· ≠ ref) mute world after) (live : after.isLive ref = true) : after.OwnText ref text := by
  have stored := spared.texts (not_not.mpr rfl) own.stored live
  refine ⟨stored, fun {list slot} inside => ?_⟩
  by_cases here : list = ref
  · rw [here, slots_eq_nil_of_storage? stored] at inside
    cases inside
  · exact (spared.closed (own.sealed sound).closed).slots here inside

end World

namespace Act

open World

variable {world : World} {block argument : Ref}

/-- What the body of a block has said is what its run gives. -/
private theorem says_runCourse (course : Course) (avoids : course.Avoids (· = block)) (runnable : Runnable block world)
    (given : argument ∈ world.inUse) :
    Meets anything (runCourse course block argument) world fun result after => after.OwnText result course.said := by
  apply meets_operateWith runnable given meets_anything
  intro first _ soundFirst began
  apply (meets_changeBlock (fun _ => "") (fun _ => rfl) (runnable.later soundFirst began)).bind
  rintro _ second - ⟨cleared, runnable⟩
  have enacts : Meets anything (lettingGo (fun _ => []) (enact block course)) second fun _ after =>
      after.out block = course.said := by
    have enacted := (says_enact course avoids runnable).with_safe runnable.sound (safe_enact course)
    apply enacted.lettingGo (fun _ => trivial) fun _ => trivial
    rintro _ after ⟨⟨said, -⟩, sound, ended, -⟩
    rw [out_settle sound ended.inUse runnable.used, said, cleared, String.empty_append]
  apply (enacts.with_safe runnable.sound ((runs_enact course).lettingGo block second runnable.used)).bind
  rintro _ third - ⟨said, sound, ended, -⟩
  apply (meets_changeBlock id (fun _ => by rfl) (runnable.later sound ended)).bind
  rintro _ last - ⟨same, runnable⟩
  refine .look ?_
  rw [out_of_block?, same, id, said]
  exact ⟨trivial, ownText_add runnable.sound⟩

end Act

namespace World

variable {world : World} {block argument : Ref}

/-- A run gives a new variable that keeps what the body has said itself, if no run of the same block lies inside.
No run changes a text for as long as no list refers to it. -/
theorem run_says_own_text (ongoing : world.Ongoing) (isBlock : world.kindOf block = .block)
    (used : block ∈ world.inUse) (given : argument ∈ world.inUse) (course : Course) :
    (course.Avoids (· = block) → ∀ result after, Act.runCourse course block argument world = .ok result after →
      world.isLive result = false ∧ after.OwnText result course.said) ∧
    ∀ ref text, world.OwnText ref text → (Act.leaves (Act.runCourse course block argument) world).isLive ref = true →
      (Act.leaves (Act.runCourse course block argument) world).OwnText ref text := by
  have runnable : Runnable block world := ⟨ongoing.sound, isBlock, used⟩
  have spares {region : Ref → Prop} (sealed : Sealed region world) : Act.Meets (Act.spares region fun _ => False)
      (Act.runCourse course block argument) world fun made _ => world.heap.size ≤ made :=
    Act.spares_operateBody (fun _ sealed => Act.spares_enact course course.avoids_nothing sealed not_false)
      sealed runnable given not_false
  refine ⟨fun avoids result after ran => ⟨?_, ?_⟩, fun ref text own live => ?_⟩
  · have fresh := ((spares (.everywhere ongoing.sound)).of_ok ran).2
    by_contra live
    exact absurd (lt_size_of_isLive (Bool.not_eq_false _ ▸ live)) (Nat.not_lt.mpr fresh)
  · exact ((Act.says_runCourse course avoids runnable given).of_ok ran).2
  · exact own.later ongoing.sound (spares (own.sealed ongoing.sound)).keeps_leaves live

/-- Two blocks and a number, all in use. -/
def twoBlocks : World :=
  let reached := (World.runAll {} [{ action := .create (.block "first" .host none none), name := some "f" },
    { action := .create (.block "second" .host none none), name := some "s" },
    { action := .create (.value "number" (.integer 0)), name := some "n" }]).2
  { reached with inUse := [0, 1, 2] ++ reached.inUse }

private theorem ongoing_twoBlocks : twoBlocks.Ongoing := by
  refine Ongoing.use (Reachable.ongoing (.runAll (.start {}) _)) ?_
  decide +kernel

/-- A body that says something before and after it runs a block. -/
def around (block : Ref) : Course := .say "a" (.run block 2 (.say "b" .done) false (.say "c" .done))

/-- What an act keeps in the variable that it gives. -/
def kept? (act : Act Ref) (world : World) : Option Storage :=
  match act world with
  | .ok result after => after.storage? result
  | .error .. => none

/-- Another block says its text elsewhere. -/
theorem run_says_own_text_around_another : twoBlocks.Ongoing ∧ kept? (Act.runCourse (around 1) 0 2) twoBlocks ≠ none ∧
    ∀ result after, Act.runCourse (around 1) 0 2 twoBlocks = .ok result after →
      twoBlocks.isLive result = false ∧ after.OwnText result "ac" := by
  have isBlock : twoBlocks.kindOf 0 = .block := by decide +kernel
  have used : 0 ∈ twoBlocks.inUse := by decide +kernel
  have given : 2 ∈ twoBlocks.inUse := by decide +kernel
  have avoids : (around 1).Avoids (· = 0) := by simp [around, Course.Avoids]
  refine ⟨ongoing_twoBlocks, by decide +kernel, ?_⟩
  exact (run_says_own_text ongoing_twoBlocks isBlock used given (around 1)).1 avoids

/-- A body that runs its own block loses what it has said before, and gives what was said inside. -/
theorem text_lost_to_run_inside : kept? (Act.runCourse (around 0) 0 2) twoBlocks = some (.stored (.text "bc")) ∧
    (around 0).said = "ac" := by
  decide +kernel

end World

end Dialogue
