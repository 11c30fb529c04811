import LinuxLikeOs.LineInput

/-!
# Bounds of the keyboard arrays

`keyboard_buffer` and `saved_keyboard_buffer` have 128 bytes.  `terminal_read` stores the
newline at `saved_buffer_position` and advances it, and only the next Enter resets it, so
the saved line needs a free byte for every terminal that has not read its line yet.

- `keyboard_indices_in_range`: when every Enter finds that room, no event of the run uses
  an index above 127
- `full_line_overflows`: an Enter without that room is followed by reads that do
-/

namespace LinuxLikeOs

open Library

/-! ## Indices -/

/-- The indices of a loop over a whole array. -/
def loopIndices : List Nat := List.range (bufferSize + 1)

/-- The indices into `keyboard_buffer` and `saved_keyboard_buffer` that an event uses:
    the `memcpy` and the loops of Enter, `terminal_switch` and `terminal_read`, the two
    cells of a backspace, the cell of a letter and the cell of the newline. -/
def keyboardIndices (tty : Tty) (e : TtyEvent) : List Nat :=
  let kb := tty.keyboard
  match lineAction tty e with
  | .switch t => if t = tty.curDisplayTid then [] else loopIndices
  | .enter => loopIndices ++ [0]
  | .erase => if kb.bufferPosition ≠ 0 then [kb.bufferPosition - 1, kb.bufferPosition] else []
  | .letter _ => if kb.bufferPosition < bufferSize then [kb.bufferPosition] else []
  | .read _ => kb.savedBufferPosition :: loopIndices
  | .other => []

/-- No index lies outside the arrays. -/
def IndicesOk (tty : Tty) (e : TtyEvent) : Prop := ∀ i ∈ keyboardIndices tty e, i ≤ bufferSize

instance (tty : Tty) (e : TtyEvent) : Decidable (IndicesOk tty e) :=
  inferInstanceAs (Decidable (∀ _ ∈ _, _))

private theorem mem_loopIndices {i : Nat} (h : i ∈ loopIndices) : i ≤ bufferSize :=
  Nat.le_of_lt_succ (List.mem_range.mp h)

/-! ## Unread lines -/

/-- The number of terminals with an unread Enter. -/
def LineState.unread (l : LineState) : Nat :=
  (List.range terminalTotalNum).countP fun t => l.enterFlag t = 1

/-- The same without terminal `d`. -/
def LineState.unreadElsewhere (l : LineState) (d : Nat) : Nat :=
  (List.range terminalTotalNum).countP fun t => t ≠ d ∧ l.enterFlag t = 1

/-- Counting below `n` with and without one element. -/
private theorem countP_range_split (p : Nat → Prop) [DecidablePred p] {n d : Nat} (h : d < n) :
    (List.range n).countP (fun t => p t) =
      (List.range n).countP (fun t => t ≠ d ∧ p t) + if p d then 1 else 0 := by
  -- on the range; the index `d` is counted on its own
  induction n with
  | zero => exact absurd h (Nat.not_lt_zero d)
  | succ n ih =>
    simp only [List.range_succ, List.countP_append, List.countP_singleton]
    rcases Nat.lt_succ_iff_lt_or_eq.mp h with hlt | rfl
    · have hne : n ≠ d := Nat.ne_of_gt hlt
      rw [ih hlt]
      simp only [hne, ne_eq, not_false_eq_true, true_and]
      omega
    · -- below `d` itself nothing is left out
      have hsame : (List.range d).countP (fun t => decide (t ≠ d ∧ p t)) =
          (List.range d).countP (fun t => decide (p t)) :=
        List.countP_congr fun t ht => by
          simp [Nat.ne_of_lt (List.mem_range.mp ht)]
      rw [hsame]
      simp

theorem LineState.unread_split (l : LineState) {d : Nat} (h : d < terminalTotalNum) :
    l.unread = l.unreadElsewhere d + if l.enterFlag d = 1 then 1 else 0 :=
  countP_range_split (fun t => l.enterFlag t = 1) h

/-- Changing the flag of `d` does not change the count elsewhere. -/
private theorem unreadElsewhere_congr {l l' : LineState} {d : Nat}
    (h : ∀ t, t ≠ d → l'.enterFlag t = l.enterFlag t) :
    l'.unreadElsewhere d = l.unreadElsewhere d :=
  List.countP_congr fun t _ => by
    by_cases htd : t = d
    · simp [htd]
    · simp [htd, h t htd]

/-- Enter adds one unread line to those of the other terminals. -/
theorem unread_enter (l : LineState) (h : l.display < terminalTotalNum) :
    (l.apply .enter).unread = l.unreadElsewhere l.display + 1 := by
  rw [LineState.unread_split _ h,
    unreadElsewhere_congr fun t ht => show (l.apply .enter).enterFlag t = _ from
      Function.update_of_ne ht _ _,
    if_pos (show (l.apply .enter).enterFlag l.display = 1 from Function.update_self ..)]

/-- A read takes its own line away. -/
theorem unread_read (l : LineState) {t : Nat} (h : l.Enabled (.read t)) :
    l.unread = (l.apply (.read t)).unread + 1 := by
  have hzero : (l.apply (.read t)).enterFlag t = 0 := Function.update_self ..
  rw [LineState.unread_split _ h.1, LineState.unread_split (l.apply (.read t)) h.1,
    unreadElsewhere_congr fun u hu => show (l.apply (.read t)).enterFlag u = _ from
      Function.update_of_ne hu _ _]
  simp [h.2, hzero]

/-! ## The invariant -/

/-- The positions are in range, and the saved line has a free byte for each unread line. -/
structure LineState.RoomOk (l : LineState) : Prop where
  positions : l.PositionsOk
  room : l.unread = 0 ∨ l.saved.fill + l.unread ≤ bufferSize + 1

/-- The room depends on the saved line and the flags only. -/
private theorem room_congr {l l' : LineState}
    (h : l'.saved = l.saved ∧ l'.enterFlag = l.enterFlag)
    (hroom : l.unread = 0 ∨ l.saved.fill + l.unread ≤ bufferSize + 1) :
    l'.unread = 0 ∨ l'.saved.fill + l'.unread ≤ bufferSize + 1 := by
  have hcount : l'.unread = l.unread := by simp only [LineState.unread, h.2]
  rwa [hcount, h.1]

/-- At Enter, the line and one newline for each terminal that has not read its line yet fit
    into the array. -/
def RoomForLine (tty : Tty) (e : TtyEvent) : Prop :=
  lineAction tty e = .enter →
    tty.keyboard.bufferPosition + tty.lineState.unreadElsewhere tty.curDisplayTid ≤ bufferSize

instance (tty : Tty) (e : TtyEvent) : Decidable (RoomForLine tty e) :=
  inferInstanceAs (Decidable (_ → _))

/-- **One step**: the actions keep the room for the unread lines. -/
theorem roomOk_apply {l : LineState} (h : l.RoomOk) {a : LineAction} (ha : l.Enabled a)
    (hroom : a = .enter → l.live.fill + l.unreadElsewhere l.display ≤ bufferSize) :
    (l.apply a).RoomOk := by
  refine ⟨LineState.positionsOk_apply h.positions ha, ?_⟩
  -- Enter adds a line that waits, a read takes one away; the others keep both sums
  cases a with
  | enter =>
    right
    have hcount := unread_enter l h.positions.display
    have hfill : (l.apply .enter).saved.fill = l.live.fill := rfl
    have := hroom rfl
    omega
  | read t =>
    have hcount := unread_read l ha
    have hfill : (l.apply (.read t)).saved.fill = (l.saved.fill + 1) % 256 := rfl
    have hbound := h.room
    simp only [bufferSize] at hbound ⊢
    omega
  | switch | erase | letter | other =>
    exact room_congr (l.apply_saved (by simp) (by simp)) h.room

/-- With the invariant no event leaves the arrays. -/
theorem indicesOk_of_roomOk {tty : Tty} (h : tty.lineState.RoomOk) {e : TtyEvent}
    (ha : tty.lineState.Enabled (lineAction tty e)) : IndicesOk tty e := by
  have hlive : tty.keyboard.bufferPosition ≤ bufferSize := h.positions.live
  intro i hi
  unfold keyboardIndices at hi
  cases hact : lineAction tty e with
  | switch t =>
    -- the loops of `switch_display` run over whole buffers
    simp only [hact] at hi
    split_ifs at hi
    · cases hi
    · exact mem_loopIndices hi
  | enter =>
    simp only [hact, List.mem_append, List.mem_singleton] at hi
    rcases hi with hi | rfl
    · exact mem_loopIndices hi
    · exact Nat.zero_le _
  | erase =>
    simp only [hact] at hi
    split_ifs at hi
    · simp only [List.mem_cons, List.not_mem_nil, or_false] at hi
      omega
    · cases hi
  | letter c =>
    simp only [hact] at hi
    split_ifs at hi with hroom
    · simp only [List.mem_singleton] at hi
      omega
    · cases hi
  | read t =>
    rw [hact] at ha
    simp only [hact, List.mem_cons] at hi
    rcases hi with rfl | hi
    · -- this line is unread, so the room counts at least one newline
      have hcount := unread_read tty.lineState ha
      have hfill : tty.lineState.saved.fill = tty.keyboard.savedBufferPosition := rfl
      have := h.room
      omega
    · exact mem_loopIndices hi
  | other =>
    simp only [hact] at hi
    cases hi

/-- `init_terminal` leaves no unread line. -/
theorem roomOk_initTerminal (tty : Tty) : (initTerminal tty).lineState.RoomOk := by
  obtain ⟨hpos, hterm⟩ := initTerminal_lineState tty
  refine ⟨hpos, .inl (List.countP_eq_zero.mpr fun t ht => ?_)⟩
  simp [(hterm t (List.mem_range.mp ht)).2]

/-- **Bounds of the keyboard arrays**: in every run from `init_terminal` in which each Enter
    finds room for the unread lines, no event uses an index above 127. -/
theorem keyboard_indices_in_range (tty : Tty) (es : List TtyEvent)
    (h : EachStep ttyStep RoomForLine (initTerminal tty) es) :
    EachStep ttyStep IndicesOk (initTerminal tty) es := by
  refine eachStep_of_invariant (I := fun s => s.lineState.RoomOk) ?_ ?_
    (roomOk_initTerminal tty) h
  · intro s e s' hs hroom hstep
    obtain ⟨ha, happly⟩ := ttyStep_lineState hstep
    rw [happly]
    exact roomOk_apply hs ha hroom
  · intro s e s' hs _ hstep
    exact indicesOk_of_roomOk hs (ttyStep_lineState hstep).1

/-- A line is typed and read, and the next one is typed while it is unread elsewhere. -/
theorem keyboard_indices_in_range_two_lines :
    EachStep ttyStep RoomForLine (initTerminal zeroTty)
        [.key 0x1e, .key 0x1c, .switch 1, .key 0x30, .key 0x1c, .read 0 (some fun _ => 0) 128,
          .read 1 (some fun _ => 0) 128] ∧
      EachStep ttyStep IndicesOk (initTerminal zeroTty)
        [.key 0x1e, .key 0x1c, .switch 1, .key 0x30, .key 0x1c, .read 0 (some fun _ => 0) 128,
          .read 1 (some fun _ => 0) 128] :=
  ⟨by decide +kernel, keyboard_indices_in_range zeroTty _ (by decide +kernel)⟩

/-- A full line on terminal 0 while the Enter of terminal 1 is unread: the first read stores
    its newline at index 127, the second at index 128. -/
theorem full_line_two_readers :
    ¬ EachStep ttyStep IndicesOk (initTerminal zeroTty)
      ([.switch 1, .key 0x1c, .switch 0] ++ List.replicate 127 (.key 0x1e) ++
        [.key 0x1c, .read 0 (some fun _ => 0) 128, .read 1 (some fun _ => 0) 128]) := by
  decide +kernel

/-! ## The bound is exact -/

/-- Reads by terminals with unread lines walk out of the array when it has too little room. -/
private theorem reads_overflow (buf : Buffer) (nbytes : Int) (ts : List Nat) :
    ∀ tty : Tty, ts.Nodup →
      (∀ t ∈ ts, t < terminalTotalNum ∧ tty.lineState.enterFlag t = 1) →
      tty.keyboard.savedBufferPosition ≤ bufferSize + 1 →
      bufferSize + 1 < tty.keyboard.savedBufferPosition + ts.length →
      ¬ EachStep ttyStep IndicesOk tty (ts.map fun t => .read t (some buf) nbytes) := by
  induction ts with
  | nil =>
    intro tty _ _ hle hlt
    simp only [List.length_nil] at hlt
    omega
  | cons t ts ih =>
    intro tty hnodup hflags hle hlt hrun
    obtain ⟨ht, hflag⟩ := hflags t (List.mem_cons_self ..)
    obtain ⟨tty', hstep⟩ : ∃ tty', ttyStep tty (.read t (some buf) nbytes) = some tty' := by
      have hread : (tty.terminals t).enterFlag = 1 := hflag
      simp only [ttyStep, if_pos ht, terminalRead, if_pos hread]
      exact ⟨_, rfl⟩
    obtain ⟨hok, hrest⟩ := hrun tty' hstep
    -- this read was still in range, so it moves the position up by one
    have hindex : tty.keyboard.savedBufferPosition ≤ bufferSize :=
      hok _ (List.mem_cons_self ..)
    have hline := (ttyStep_lineState hstep).2
    have hsaved : tty'.keyboard.savedBufferPosition =
        (tty.keyboard.savedBufferPosition + 1) % 256 := congrArg (fun l => l.saved.fill) hline
    have hnext : tty'.keyboard.savedBufferPosition = tty.keyboard.savedBufferPosition + 1 := by
      simp only [bufferSize] at hindex
      omega
    refine ih tty' (List.nodup_cons.mp hnodup).2 (fun u hu => ?_) (by omega) ?_ hrest
    · -- the other readers still wait
      obtain ⟨hu3, huflag⟩ := hflags u (List.mem_cons_of_mem _ hu)
      have hne : u ≠ t := fun heq => (List.nodup_cons.mp hnodup).1 (heq ▸ hu)
      refine ⟨hu3, ?_⟩
      have hkeep : tty'.lineState.enterFlag u = tty.lineState.enterFlag u := by
        rw [hline]
        exact Function.update_of_ne hne _ _
      rw [hkeep, huflag]
    · simp only [List.length_cons] at hlt
      omega

/-- **The room is needed**: if Enter does not find it, the reads of the lines that are unread
    then use an index above 127. -/
theorem full_line_overflows {tty tty' : Tty} {e : TtyEvent} (hpos : tty.lineState.PositionsOk)
    (hroom : ¬ RoomForLine tty e) (hstep : ttyStep tty e = some tty') (buf : Buffer)
    (nbytes : Int) :
    ∃ ts : List Nat, ¬ EachStep ttyStep IndicesOk tty'
      (ts.map fun t => .read t (some buf) nbytes) := by
  obtain ⟨henter, hfull⟩ := Classical.not_imp.mp hroom
  have hline := (ttyStep_lineState hstep).2
  rw [henter] at hline
  -- all terminals with an unread line read
  refine ⟨(List.range terminalTotalNum).filter fun t => tty'.lineState.enterFlag t = 1,
    reads_overflow buf nbytes _ tty' (List.nodup_range.filter _) (fun t ht => ?_) ?_ ?_⟩
  · obtain ⟨hmem, hflag⟩ := List.mem_filter.mp ht
    exact ⟨List.mem_range.mp hmem, of_decide_eq_true hflag⟩
  · have hsaved : tty'.keyboard.savedBufferPosition = tty.keyboard.bufferPosition :=
      congrArg (fun l => l.saved.fill) hline
    have hlive : tty.keyboard.bufferPosition ≤ bufferSize := hpos.live
    omega
  · have hsaved : tty'.keyboard.savedBufferPosition = tty.keyboard.bufferPosition :=
      congrArg (fun l => l.saved.fill) hline
    have hcount := unread_enter tty.lineState hpos.display
    rw [← hline] at hcount
    have hlength : ((List.range terminalTotalNum).filter fun t =>
        tty'.lineState.enterFlag t = 1).length = tty'.lineState.unread :=
      List.countP_eq_length_filter.symm
    have hdisplay : tty.lineState.display = tty.curDisplayTid := rfl
    rw [hdisplay] at hcount
    omega

end LinuxLikeOs
