import Mathlib.Tactic.SplitIfs
import LinuxLikeOs.Library.FillBuffer
import LinuxLikeOs.Library.Trace
import LinuxLikeOs.KeyPresses
import LinuxLikeOs.ScreenLaws

/-!
# Line input

The line input is the part of the terminal state that `terminal_read` and the key
handler use: the live keyboard buffer, the saved line, and the buffer and `enter_flag` of
each terminal.

- `lineAction`: what an event means to the line input
- `LineState.apply`: the effect of each action
- `ttyStep_lineState`: the terminals refine this machine
- `LineState.pending`: the text that waits on a terminal, with one law for each action
- `LineState.positionsOk_apply`: no position ever leaves its array
-/

namespace LinuxLikeOs

open Library

/-! ## What a scan code means -/

/-- What an event means to the line input. -/
inductive LineAction where
  | switch (t : Nat)
  | enter
  | erase
  | letter (c : UInt8)
  | read (t : Nat)
  | other
  deriving DecidableEq

/-- The action of a key that reaches `output_keyvalue`. -/
def typedAction (kb : Keyboard) (code : Nat) : LineAction :=
  if keyChar 0 code = backspace then .erase
  else if keyChar 0 code = letterL ∧ kb.ctrlFlag = true then .other
  else if code = capsOn ∨ code = altOn then .other
  else if keyChar kb.row code = 0 then .other
  else .letter (keyChar kb.row code)

/-- The action of scan code `code`, from the flags as they are when it arrives. -/
def keyAction (kb : Keyboard) (code : Nat) : LineAction :=
  let kb := releaseFlags kb code
  match switchKey kb code with
  | some t => .switch t
  | none =>
    if code < keySize then
      if keyChar 0 code = newline then .enter else typedAction kb code
    else .other

/-- A key press as an action. -/
def KeyPress.lineAction : KeyPress → LineAction
  | .switch t => .switch t
  | .enter => .enter
  | .erase => .erase
  | .letter c => .letter c
  | .clear | .none => .other

/-- The action of a scan code is that of its key press. -/
theorem keyAction_eq (kb : Keyboard) (code : Nat) :
    keyAction kb code = (keyPress kb code).lineAction := by
  unfold keyAction keyPress
  dsimp only
  -- a switch of the terminal, a letter, or a code above the keys
  cases switchKey (releaseFlags kb code) code with
  | some t => rfl
  | none =>
    dsimp only
    generalize releaseFlags kb code = kb
    unfold charPress typedAction
    by_cases hlt : code < keySize
    · -- Caps Lock and Alt have no character either
      have hflag : code = capsOn ∨ code = altOn → keyChar kb.row code = 0 := by
        rintro (rfl | rfl)
        · exact keyChar_flagKey (.inl rfl) _
        · exact keyChar_flagKey (.inr (.inr (.inr (.inr rfl)))) _
      rw [if_pos hlt, if_neg (not_not.mpr hlt)]
      split_ifs with h1 h2 h3 h4 h5 h6 <;> first | rfl | exact absurd (hflag h4) h5
    · rw [if_neg hlt, if_pos hlt]
      rfl

/-- The action of an event.  A read without a buffer returns at once. -/
def lineAction (tty : Tty) : TtyEvent → LineAction
  | .key code => keyAction tty.keyboard code.toNat
  | .switch n => if n < 0 ∨ n > terminalMaxNum then .other else .switch n.toNat
  | .read _ none _ => .other
  | .read t (some _) _ => .read t
  | .write .. => .other

/-! ## The line input and its actions -/

/-- The live keyboard buffer, the saved line, the buffer and flag of each terminal. -/
@[ext]
structure LineState where
  live : FillBuffer UInt8
  saved : FillBuffer UInt8
  stored : Nat → FillBuffer UInt8
  enterFlag : Nat → Int
  display : Nat

/-- The line input of a terminal state. -/
def Tty.lineState (tty : Tty) : LineState where
  live := ⟨tty.keyboard.keyboardBuffer, tty.keyboard.bufferPosition⟩
  saved := ⟨tty.keyboard.savedKeyboardBuffer, tty.keyboard.savedBufferPosition⟩
  stored t := ⟨(tty.terminals t).terminalBuffer, (tty.terminals t).bufferPosition⟩
  enterFlag t := (tty.terminals t).enterFlag
  display := tty.curDisplayTid

/-- `FillBuffer.clear` and `FillBuffer.copy` at the size of the keyboard arrays. -/
abbrev clearBuffer : FillBuffer UInt8 → FillBuffer UInt8 := FillBuffer.clear bufferSize 0
abbrev copyBuffer : FillBuffer UInt8 → FillBuffer UInt8 → FillBuffer UInt8 :=
  FillBuffer.copy bufferSize

/-- The effect of an action on the line input. -/
def LineState.apply (l : LineState) : LineAction → LineState
  | .switch t =>
    if t = l.display then l
    else
      { l with
        live := copyBuffer (l.stored t) l.live
        stored := Function.update l.stored l.display (copyBuffer l.live (l.stored l.display))
        display := t }
  | .enter =>
    { l with
      -- `output_keyvalue` types the newline into the cleared line
      live := (clearBuffer l.live).push newline
      saved := copyBuffer l.live l.saved
      enterFlag := Function.update l.enterFlag l.display 1 }
  | .erase => if l.live.fill ≠ 0 then { l with live := l.live.pop 0 } else l
  | .letter c => if l.live.fill < bufferSize then { l with live := l.live.push c } else l
  | .read t =>
    { l with
      live := clearBuffer l.live
      -- the newline is stored without a look at the position, a byte
      saved := ⟨(l.saved.push newline).cells, (l.saved.fill + 1) % 256⟩
      stored := Function.update l.stored t (clearBuffer (l.stored t))
      enterFlag := Function.update l.enterFlag t 0 }
  | .other => l

/-! ## The terminals refine the line input -/

/-- Storing an entry of `terminals` stores its buffer and its flag. -/
private theorem lineState_setTerminal (tty : Tty) (t : Nat) (term : Terminal) :
    (tty.setTerminal t term).lineState =
      { tty.lineState with
        stored := Function.update tty.lineState.stored t
          ⟨term.terminalBuffer, term.bufferPosition⟩
        enterFlag := Function.update tty.lineState.enterFlag t term.enterFlag } := by
  have hstored := Function.comp_update
    (fun x : Terminal => (⟨x.terminalBuffer, x.bufferPosition⟩ : FillBuffer UInt8))
    tty.terminals t term
  have hflag := Function.comp_update Terminal.enterFlag tty.terminals t term
  simp only [Tty.lineState, Tty.setTerminal, LineState.mk.injEq, true_and, and_true]
  exact ⟨hstored, hflag⟩

/-- An entry that keeps its buffer and its flag leaves the line input as it is. -/
private theorem lineState_setTerminal_same (tty : Tty) (t : Nat) (term : Terminal)
    (hbuf : term.terminalBuffer = (tty.terminals t).terminalBuffer)
    (hpos : term.bufferPosition = (tty.terminals t).bufferPosition)
    (hflag : term.enterFlag = (tty.terminals t).enterFlag) :
    (tty.setTerminal t term).lineState = tty.lineState := by
  rw [lineState_setTerminal, hbuf, hpos, hflag]
  have hstored : Function.update tty.lineState.stored t (tty.lineState.stored t) =
      tty.lineState.stored := Function.update_eq_self ..
  have hflags : Function.update tty.lineState.enterFlag t (tty.lineState.enterFlag t) =
      tty.lineState.enterFlag := Function.update_eq_self ..
  exact congrArg₂ (fun x y => { tty.lineState with stored := x, enterFlag := y }) hstored hflags

/-- A switch of the display on the line input. -/
private theorem switchDisplay_lineState (tty : Tty) {t : Nat} (h : t ≠ tty.curDisplayTid) :
    (switchDisplay tty t).lineState = tty.lineState.apply (.switch t) := by
  have hne : t ≠ tty.lineState.display := h
  simp only [LineState.apply, if_neg hne]
  let saved := savedTerminal tty
  have hset := lineState_setTerminal tty tty.curDisplayTid saved
  have hterm : (tty.setTerminal tty.curDisplayTid saved).terminals t = tty.terminals t :=
    Function.update_of_ne h _ _
  -- the entry loaded is the one of `t`, which the save has not touched
  have hlive : (switchDisplay tty t).lineState.live =
      copyBuffer (tty.lineState.stored t) tty.lineState.live := by
    have hload : (switchDisplay tty t).lineState.live =
        copyBuffer ((tty.setTerminal tty.curDisplayTid saved).lineState.stored t)
          (clearBuffer tty.lineState.live) := rfl
    rw [hload]
    simp only [Tty.lineState, hterm, FillBuffer.copy, FillBuffer.clear]
    congr 1
    funext i
    by_cases hi : i ≤ bufferSize <;> simp [hi]
  have hflags : (switchDisplay tty t).lineState.enterFlag = tty.lineState.enterFlag :=
    (congrArg LineState.enterFlag hset).trans (Function.update_eq_self ..)
  have hstored := congrArg LineState.stored hset
  exact LineState.ext hlive rfl hstored hflags rfl

/-- `terminal_switch` on the line input. -/
private theorem terminalSwitch_lineState (tty : Tty) (n : Int) :
    (terminalSwitch tty n).2.lineState =
      tty.lineState.apply (if n < 0 ∨ n > terminalMaxNum then .other else .switch n.toNat) := by
  unfold terminalSwitch
  -- out of range, the terminal shown already, or a real switch
  by_cases hrange : n < 0 ∨ n > terminalMaxNum
  · simp only [if_pos hrange]
    rfl
  · simp only [if_neg hrange]
    have hpos : 0 ≤ n := Int.not_lt.mp (not_or.mp hrange).1
    by_cases hsame : n = tty.curDisplayTid
    · have hdisplay : n.toNat = tty.lineState.display := by rw [hsame]; rfl
      simp only [if_pos hsame, LineState.apply, if_pos hdisplay]
    · have hdisplay : n.toNat ≠ tty.curDisplayTid := by omega
      simp only [if_neg hsame]
      exact switchDisplay_lineState tty hdisplay

private theorem switchKey_range {kb : Keyboard} {code t : Nat} (h : switchKey kb code = some t) :
    ¬ ((t : Int) < 0 ∨ (t : Int) > terminalMaxNum) := by
  unfold switchKey at h
  simp only [terminalMaxNum]
  split at h
  · cases h; decide
  · split at h
    · cases h; decide
    · split at h
      · cases h; decide
      · cases h

/-- A character that is typed. -/
private theorem typeChar_lineState (tty : Tty) (c : UInt8) :
    (typeChar tty c).lineState = tty.lineState.apply (.letter c) := by
  unfold typeChar
  by_cases hroom : tty.keyboard.bufferPosition < bufferSize
  · have hlive : tty.lineState.live.fill < bufferSize := hroom
    simp only [if_pos hroom, LineState.apply, if_pos hlive]
    rfl
  · have hlive : ¬ tty.lineState.live.fill < bufferSize := hroom
    simp only [if_neg hroom, LineState.apply, if_neg hlive]
    rfl

/-- An erased character. -/
private theorem eraseChar_lineState (tty : Tty) :
    (eraseChar tty).lineState = tty.lineState.apply .erase := by
  unfold eraseChar
  by_cases hempty : tty.keyboard.bufferPosition ≠ 0
  · have hlive : tty.lineState.live.fill ≠ 0 := hempty
    simp only [if_pos hempty, LineState.apply, if_pos hlive]
    rfl
  · have hlive : ¬ tty.lineState.live.fill ≠ 0 := hempty
    simp only [if_neg hempty, LineState.apply, if_neg hlive]
    split_ifs <;> rfl

/-- Enter saves and clears the line and types the newline into it. -/
private theorem enter_lineState (tty : Tty) :
    (typeChar (saveLine tty) newline).lineState = tty.lineState.apply .enter := by
  rw [typeChar_lineState, saveLine, lineState_setTerminal]
  have hkeep : Function.update tty.lineState.stored tty.curDisplayTid
      (tty.lineState.stored tty.curDisplayTid) = tty.lineState.stored :=
    Function.update_eq_self ..
  exact congrArg (fun x => { tty.lineState.apply .enter with stored := x }) hkeep

/-- The keys select terminals 0 to 2. -/
private theorem keyPress_range {kb : Keyboard} {code t : Nat} (h : keyPress kb code = .switch t) :
    ¬ ((t : Int) < 0 ∨ (t : Int) > terminalMaxNum) := by
  unfold keyPress at h
  dsimp only at h
  cases hswitch : switchKey (releaseFlags kb code) code with
  | some t' =>
    rw [hswitch] at h
    obtain rfl := KeyPress.switch.inj h
    exact switchKey_range hswitch
  | none =>
    rw [hswitch] at h
    simp only [charPress] at h
    split_ifs at h

/-- **The key handler on the line input**. -/
theorem keyboardHandler_lineState (tty : Tty) (code : UInt8) :
    (keyboardHandler tty code).lineState =
      tty.lineState.apply (keyAction tty.keyboard code.toNat) := by
  rw [keyboardHandler_eq, keyAction_eq]
  -- the flags are no part of the line input
  obtain ⟨caps, shift, ctrl, alt, hflags⟩ := flagsAfter_eq tty.keyboard code.toNat
  have hsame : { tty with keyboard := flagsAfter tty.keyboard code.toNat }.lineState =
      tty.lineState := by
    rw [hflags]
    rfl
  rw [← hsame]
  generalize { tty with keyboard := flagsAfter tty.keyboard code.toNat } = tty'
  cases hpress : keyPress tty.keyboard code.toNat with
  | switch t =>
    simp only [Tty.press]
    rw [terminalSwitch_lineState, if_neg (keyPress_range hpress), Int.toNat_natCast]
    rfl
  | enter => exact enter_lineState tty'
  | erase => exact eraseChar_lineState tty'
  | letter c => exact typeChar_lineState tty' c
  | clear => rfl
  | none => rfl

/-- A completed read on the line input. -/
private theorem terminalRead_lineState {tty : Tty} {t : Nat} {buf : Buffer} {nbytes : Int}
    {r : Int × Option Buffer × Tty} (h : terminalRead tty t (some buf) nbytes = some r) :
    tty.lineState.enterFlag t = 1 ∧ r.2.2.lineState = tty.lineState.apply (.read t) := by
  unfold terminalRead at h
  dsimp only at h
  by_cases hflag : (tty.terminals t).enterFlag = 1
  · rw [if_pos hflag] at h
    obtain rfl := Option.some.inj h
    exact ⟨hflag, lineState_setTerminal ..⟩
  · rw [if_neg hflag] at h
    cases h

/-- Drawing in the background only moves the cursor of the terminal. -/
theorem foldl_terminalSpecialPutc_terminal (mem : Memory) (term : Terminal) (buf : Buffer)
    (is : List Nat) :
    ∃ x y, (is.foldl (fun (m : Memory × Terminal) i =>
      terminalSpecialPutc m.1 m.2 (previousChar buf i) (buf i)) (mem, term)).2 =
        { term with xPosition := x, yPosition := y } := by
  induction is generalizing mem term with
  | nil => exact ⟨term.xPosition, term.yPosition, rfl⟩
  | cons i is ih =>
    obtain ⟨x, y, h⟩ := terminalSpecialPutc_terminal mem term (previousChar buf i) (buf i)
    obtain ⟨x', y', h'⟩ := ih (terminalSpecialPutc mem term (previousChar buf i) (buf i)).1
      (terminalSpecialPutc mem term (previousChar buf i) (buf i)).2
    exact ⟨x', y', by rw [List.foldl_cons, h', h]⟩

/-- A write draws on the screen or moves the cursor of its terminal, and no more. -/
theorem terminalWrite_frame (tty : Tty) (t : Nat) (buf : Option Buffer) (nbytes : Int) :
    (∃ screen, (terminalWrite tty t buf nbytes).2 = { tty with screen := screen }) ∨
    ∃ screen x y, (terminalWrite tty t buf nbytes).2 =
      { tty with screen := screen }.setTerminal t
        { tty.terminals t with xPosition := x, yPosition := y } := by
  cases buf with
  | none => exact .inl ⟨tty.screen, rfl⟩
  | some buf =>
    -- on the display only the screen changes, in the background the terminal's cursor too
    by_cases hd : tty.curDisplayTid = t
    · simp only [terminalWrite, if_pos hd]
      exact .inl ⟨_, rfl⟩
    · obtain ⟨x, y, h⟩ := foldl_terminalSpecialPutc_terminal tty.screen.mem (tty.terminals t) buf
        (List.range nbytes.toNat)
      simp only [terminalWrite, if_neg hd, h]
      exact .inr ⟨_, x, y, rfl⟩

/-- A write leaves the line input alone. -/
private theorem terminalWrite_lineState (tty : Tty) (t : Nat) (buf : Option Buffer)
    (nbytes : Int) : (terminalWrite tty t buf nbytes).2.lineState = tty.lineState := by
  rcases terminalWrite_frame tty t buf nbytes with ⟨screen, h⟩ | ⟨screen, x, y, h⟩
  · rw [h]
    rfl
  · rw [h]
    exact lineState_setTerminal_same _ _ _ rfl rfl rfl

/-- What holds of an action that takes place: terminals are numbered 0 to 2, only Enter
    types a newline, and a read waits for the flag of its terminal. -/
def LineState.Enabled (l : LineState) : LineAction → Prop
  | .switch t => t < terminalTotalNum
  | .letter c => c ≠ newline
  | .read t => t < terminalTotalNum ∧ l.enterFlag t = 1
  | _ => True

private theorem keyAction_enabled (l : LineState) (kb : Keyboard) (code : Nat) :
    l.Enabled (keyAction kb code) := by
  rw [keyAction_eq]
  cases hpress : keyPress kb code with
  | switch t =>
    have hrange := keyPress_range hpress
    simp only [terminalMaxNum] at hrange
    simp only [KeyPress.lineAction, LineState.Enabled, terminalTotalNum]
    omega
  | letter c => exact (keyPress_letter hpress).1
  | enter | erase | clear | none => trivial

/-- **Refinement**: every event acts on the line input as its action says. -/
theorem ttyStep_lineState {tty tty' : Tty} {e : TtyEvent} (h : ttyStep tty e = some tty') :
    tty.lineState.Enabled (lineAction tty e) ∧
      tty'.lineState = tty.lineState.apply (lineAction tty e) := by
  -- each event is one action on the lines; only keys, switches and reads are real ones
  cases e with
  | key code =>
    obtain rfl := Option.some.inj h
    exact ⟨keyAction_enabled .., keyboardHandler_lineState tty code⟩
  | switch n =>
    obtain rfl := Option.some.inj h
    refine ⟨?_, terminalSwitch_lineState tty n⟩
    simp only [lineAction]
    split_ifs with hrange
    · trivial
    · simp only [LineState.Enabled, terminalTotalNum, terminalMaxNum] at hrange ⊢
      omega
  | read t buf nbytes =>
    simp only [ttyStep] at h
    split at h
    · rename_i ht
      obtain ⟨r, hr, rfl⟩ := Option.map_eq_some_iff.mp h
      cases buf with
      | none =>
        obtain rfl := Option.some.inj hr
        exact ⟨trivial, rfl⟩
      | some buf =>
        obtain ⟨hflag, hread⟩ := terminalRead_lineState hr
        exact ⟨⟨ht, hflag⟩, hread⟩
    · cases h
  | write t buf nbytes =>
    simp only [ttyStep] at h
    split at h
    · obtain rfl := Option.some.inj h
      exact ⟨trivial, terminalWrite_lineState tty t buf nbytes⟩
    · cases h

/-! ## Waiting text -/

/-- The text that waits on terminal `t`: the live buffer while `t` is displayed, its own
    buffer otherwise. -/
def LineState.pending (l : LineState) (t : Nat) : List UInt8 :=
  if t = l.display then l.live.contents else (l.stored t).contents

/-- All positions stay inside their arrays, with room for one more byte. -/
structure LineState.PositionsOk (l : LineState) : Prop where
  display : l.display < terminalTotalNum
  live : l.live.fill ≤ bufferSize
  stored : ∀ t < terminalTotalNum, (l.stored t).fill ≤ bufferSize

/-- The line of a terminal as `output_keyvalue` extends it: a full line takes no more. -/
def typeLetter (line : List UInt8) (c : UInt8) : List UInt8 :=
  if line.length < bufferSize then line ++ [c] else line

namespace LineState

variable {l : LineState} {t : Nat}

theorem pending_display (l : LineState) : l.pending l.display = l.live.contents := if_pos rfl

theorem pending_letter (l : LineState) (c : UInt8) :
    (l.apply (.letter c)).pending t =
      if t = l.display then typeLetter (l.pending t) c else l.pending t := by
  simp only [apply, typeLetter, pending]
  by_cases hd : t = l.display
  · by_cases hfull : l.live.fill < bufferSize <;> simp [hd, hfull]
  · by_cases hfull : l.live.fill < bufferSize <;> simp [hd, hfull]

theorem pending_erase (l : LineState) :
    (l.apply .erase).pending t =
      if t = l.display then (l.pending t).dropLast else l.pending t := by
  simp only [apply, pending]
  by_cases hempty : l.live.fill = 0
  · have hnil : l.live.contents = [] := List.eq_nil_of_length_eq_zero (by simpa using hempty)
    by_cases hd : t = l.display <;> simp [hd, hempty, hnil]
  · by_cases hd : t = l.display <;> simp [hd, hempty]

theorem pending_enter (l : LineState) :
    (l.apply .enter).pending t = if t = l.display then [newline] else l.pending t := by
  simp only [apply, pending]
  by_cases hd : t = l.display <;> simp [hd]

theorem pending_read (l : LineState) (u : Nat) :
    (l.apply (.read u)).pending t =
      if t = l.display ∨ t = u then [] else l.pending t := by
  simp only [apply, pending]
  by_cases hd : t = l.display
  · simp [hd]
  · by_cases hu : t = u
    · simp [hu]
    · simp [hd, hu]

/-- A switch moves the text between the live buffer and those of the terminals. -/
theorem pending_switch (h : l.PositionsOk) {n : Nat} (hn : n < terminalTotalNum) :
    (l.apply (.switch n)).pending t = l.pending t := by
  simp only [apply]
  by_cases hsame : n = l.display
  · rw [if_pos hsame]
  rw [if_neg hsame]
  -- the new terminal gets what it had stored, the old one stores what was live
  by_cases htn : t = n
  · have htd : t ≠ l.display := htn ▸ hsame
    simp only [pending, htn, if_true, if_neg hsame]
    exact FillBuffer.contents_copy (Nat.le_succ_of_le (h.stored n hn))
  · by_cases htd : t = l.display
    · subst htd
      simp only [pending, if_neg htn, if_true, Function.update_self]
      exact FillBuffer.contents_copy (Nat.le_succ_of_le h.live)
    · simp only [pending, if_neg htn, if_neg htd, Function.update_of_ne htd]

/-- Only Enter and reads touch the saved line and the flags. -/
theorem apply_saved (l : LineState) {a : LineAction} (henter : a ≠ .enter)
    (hread : ∀ u, a ≠ .read u) :
    (l.apply a).saved = l.saved ∧ (l.apply a).enterFlag = l.enterFlag := by
  cases a with
  | enter => exact absurd rfl henter
  | read u => exact absurd rfl (hread u)
  | other => exact ⟨rfl, rfl⟩
  | switch | erase | letter =>
    simp only [apply]
    split_ifs <;> exact ⟨rfl, rfl⟩

/-- Every action keeps the positions inside the arrays. -/
theorem positionsOk_apply (h : l.PositionsOk) {a : LineAction} (ha : l.Enabled a) :
    (l.apply a).PositionsOk := by
  obtain ⟨hdisplay, hlive, hstored⟩ := h
  -- what is live and what is stored stay within the buffer
  cases a with
  | switch n =>
    simp only [apply]
    split_ifs with hsame
    · exact ⟨hdisplay, hlive, hstored⟩
    · refine ⟨ha, hstored n ha, fun t ht => ?_⟩
      -- the old display stores its live buffer, the others keep theirs
      by_cases htd : t = l.display
      · subst htd
        simpa [FillBuffer.copy] using hlive
      · simpa [Function.update_of_ne htd] using hstored t ht
  | enter => exact ⟨hdisplay, show (0 : Nat) + 1 ≤ bufferSize by decide, hstored⟩
  | erase =>
    simp only [apply]
    split_ifs
    · exact ⟨hdisplay, Nat.le_trans (Nat.sub_le ..) hlive, hstored⟩
    · exact ⟨hdisplay, hlive, hstored⟩
  | letter c =>
    simp only [apply]
    split_ifs with hroom
    · exact ⟨hdisplay, hroom, hstored⟩
    · exact ⟨hdisplay, hlive, hstored⟩
  | read n =>
    -- the reader's line is cleared
    refine ⟨hdisplay, Nat.zero_le _, fun t ht => ?_⟩
    by_cases htn : t = n
    · subst htn
      simp [apply, FillBuffer.clear]
    · simpa [apply, Function.update_of_ne htn] using hstored t ht
  | other => exact ⟨hdisplay, hlive, hstored⟩

end LineState

/-- `init_terminal` leaves no text and no flag. -/
theorem initTerminal_lineState (tty : Tty) :
    (initTerminal tty).lineState.PositionsOk ∧
      ∀ t < terminalTotalNum, (initTerminal tty).lineState.pending t = [] ∧
        (initTerminal tty).lineState.enterFlag t = 0 := by
  have hterm : ∀ t < terminalTotalNum, (initTerminal tty).terminals t =
      freshTerminal t (terminalPage t) (tty.terminals t) := fun t ht => if_pos ht
  have hdisplay : 0 < terminalTotalNum := by decide
  refine ⟨⟨hdisplay, Nat.zero_le _, fun t ht => ?_⟩, fun t ht => ⟨?_, ?_⟩⟩
  · simp [Tty.lineState, hterm t ht, freshTerminal]
  · unfold LineState.pending
    split_ifs
    · rfl
    · simp [Tty.lineState, hterm t ht, freshTerminal, FillBuffer.contents]
  · simp [Tty.lineState, hterm t ht, freshTerminal]

end LinuxLikeOs
