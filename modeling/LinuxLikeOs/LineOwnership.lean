import LinuxLikeOs.LineInput

/-!
# Whose line a read delivers

A history beside the terminals records the line being typed on each terminal and the one
last ended there by Enter.  A `terminal_read` should deliver the latter.  The saved line
is shared by the terminals, a read clears the live buffer of whatever terminal is
displayed, the newline of an Enter goes into the next line, and letters beyond the buffer
are shown but not kept; `KeepsLines` is the condition that none of this meets text that is
still needed.

- `LineLog`: the history
- `LinesOk`: the invariant that ties the buffers to the history
- `lines_reach_their_terminal`: in a run whose steps meet the condition every completed
  read delivers the line last ended on its terminal
-/

namespace LinuxLikeOs

open Library

/-! ## History -/

/-- The line typed so far on each terminal and the line last ended there. -/
structure LineLog where
  typed : Nat → List UInt8
  ended : Nat → List UInt8

namespace LineLog

/-- Nothing typed yet. -/
def empty : LineLog := ⟨fun _ => [], fun _ => []⟩

/-- Keys act on the line of the displayed terminal, and nothing else acts on any line.  A line can
    have any number of letters, and a backspace takes back the last one. -/
def apply (log : LineLog) (display : Nat) : LineAction → LineLog
  | .letter c =>
    { log with typed := Function.update log.typed display (log.typed display ++ [c]) }
  | .erase => { log with typed := Function.update log.typed display (log.typed display).dropLast }
  | .enter =>
    { typed := Function.update log.typed display []
      ended := Function.update log.ended display (log.typed display) }
  | .switch _ | .read _ | .other => log

end LineLog

/-- The terminals with their history. -/
def loggedStep (s : Tty × LineLog) (e : TtyEvent) : Option (Tty × LineLog) :=
  (ttyStep s.1 e).map fun tty => (tty, s.2.apply s.1.curDisplayTid (lineAction s.1 e))

/-! ## The property and its condition -/

/-- A read of at least 128 bytes that completes returns the line last ended on its terminal,
    followed by the newline. -/
def DeliversLine (s : Tty × LineLog) : TtyEvent → Prop
  | .read t (some buf) nbytes =>
    let line := s.2.ended t
    128 ≤ nbytes → ∀ r ∈ terminalRead s.1 t (some buf) nbytes,
      r.1 = line.length + 1 ∧
        r.2.1.map (fun out => (List.range (line.length + 1)).map out) = some (line ++ [newline])
  | _ => True

instance (s : Tty × LineLog) (e : TtyEvent) : Decidable (DeliversLine s e) :=
  match e with
  | .read _ (some _) _ => inferInstanceAs (Decidable (_ → ∀ r ∈ _, _))
  | .read _ none _ | .key _ | .switch _ | .write .. => isTrue trivial

/-- Terminal `t` has nothing in its buffer but possibly the newline of its last Enter. -/
def LineState.NothingTyped (l : LineState) (t : Nat) : Prop :=
  l.pending t = [] ∨ l.pending t = [newline]

/-- The condition on an action: Enter finds no unread line on another terminal, no letter
    is typed behind the newline of the last Enter or into a full buffer, and a read finds
    nothing typed on the displayed terminal and on its own. -/
def LineState.Keeps (l : LineState) : LineAction → Prop
  | .enter => ∀ t < terminalTotalNum, t ≠ l.display → l.enterFlag t ≠ 1
  | .letter _ => l.pending l.display ≠ [newline] ∧ (l.pending l.display).length < bufferSize
  | .read t => l.NothingTyped l.display ∧ l.NothingTyped t
  | .switch _ | .erase | .other => True

instance (l : LineState) (a : LineAction) : Decidable (l.Keeps a) :=
  match a with
  | .enter => inferInstanceAs (Decidable (∀ t < _, _ → _))
  | .letter _ => inferInstanceAs (Decidable (_ ≠ _ ∧ _))
  | .read _ => inferInstanceAs (Decidable ((_ ∨ _) ∧ (_ ∨ _)))
  | .switch _ | .erase | .other => isTrue trivial

/-- The condition on an event. -/
def KeepsLines (s : Tty × LineLog) (e : TtyEvent) : Prop :=
  s.1.lineState.Keeps (lineAction s.1 e)

instance (s : Tty × LineLog) (e : TtyEvent) : Decidable (KeepsLines s e) :=
  inferInstanceAs (Decidable (LineState.Keeps ..))

/-! ## The invariant -/

/-- The buffer text `text` stands for `line`: it is the line, or the newline of the last
    Enter before anything is typed. -/
def StandsFor (text line : List UInt8) : Prop := text = line ∨ text = [newline] ∧ line = []

/-- The buffers hold the history: waiting text stands for the typed line, and the saved line
    for the ended line of the one terminal that has not read it yet. -/
structure LinesOk (l : LineState) (log : LineLog) : Prop where
  positions : l.PositionsOk
  typed : ∀ t < terminalTotalNum, StandsFor (l.pending t) (log.typed t)
  typed_chars : ∀ t, newline ∉ log.typed t
  ended_chars : ∀ t, newline ∉ log.ended t
  ended_length : ∀ t, (log.ended t).length ≤ bufferSize
  saved : ∀ t < terminalTotalNum, l.enterFlag t = 1 → StandsFor l.saved.contents (log.ended t)
  one_unread : ∀ t < terminalTotalNum, ∀ u < terminalTotalNum,
    l.enterFlag t = 1 → l.enterFlag u = 1 → t = u

/-- Nothing typed in the buffer means nothing typed in the history. -/
private theorem typed_eq_nil {l : LineState} {log : LineLog} (h : LinesOk l log) {t : Nat}
    (ht : t < terminalTotalNum) (hn : l.NothingTyped t) : log.typed t = [] := by
  rcases h.typed t ht with heq | ⟨-, hnil⟩
  · rcases hn with hn | hn
    · rw [← heq, hn]
    · exact absurd (by rw [← heq, hn]; exact List.mem_singleton_self _) (h.typed_chars t)
  · exact hnil

/-- A typed line fits into the buffer. -/
private theorem typed_length {l : LineState} {log : LineLog} (h : LinesOk l log)
    (hd : l.display < terminalTotalNum) : (log.typed l.display).length ≤ bufferSize := by
  rcases h.typed _ hd with heq | ⟨-, hnil⟩
  · rw [← heq, LineState.pending_display, FillBuffer.length_contents]
    exact h.positions.live
  · rw [hnil]
    exact Nat.zero_le _

private theorem not_mem_concat {line : List UInt8} {c : UInt8} (h : newline ∉ line)
    (hc : c ≠ newline) : newline ∉ line ++ [c] := by
  simp [h, hc.symm]

/-- A family of lines stays free of newlines when one of them changes. -/
private theorem not_mem_update {f : Nat → List UInt8} (h : ∀ t, newline ∉ f t) (d : Nat)
    {line : List UInt8} (hline : newline ∉ line) (t : Nat) :
    newline ∉ Function.update f d line t := by
  by_cases htd : t = d
  · subst htd
    rwa [Function.update_self]
  · rw [Function.update_of_ne htd]
    exact h t

/-- Away from Enter and reads only the typed line of the displayed terminal can change. -/
private theorem linesOk_of_typed {l : LineState} {log : LineLog} (h : LinesOk l log)
    {a : LineAction} (ha : l.Enabled a) (henter : a ≠ .enter) (hread : ∀ u, a ≠ .read u)
    (htyped : ∀ t < terminalTotalNum,
      StandsFor ((l.apply a).pending t) ((log.apply l.display a).typed t))
    (hchars : ∀ t, newline ∉ (log.apply l.display a).typed t) :
    LinesOk (l.apply a) (log.apply l.display a) := by
  -- no Enter and no read: the saved line and the flags stay as they are
  obtain ⟨hsaved, hflags⟩ := l.apply_saved henter hread
  -- and so does the log of the lines that ended
  have hended : (log.apply l.display a).ended = log.ended := by
    cases a with
    | enter => exact absurd rfl henter
    | read | switch | erase | letter | other => rfl
  exact
    { positions := LineState.positionsOk_apply h.positions ha
      typed := htyped
      typed_chars := hchars
      ended_chars := hended ▸ h.ended_chars
      ended_length := hended ▸ h.ended_length
      saved := by rw [hsaved, hflags, hended]; exact h.saved
      one_unread := by rw [hflags]; exact h.one_unread }

/-- Enter ends the line of the displayed terminal. -/
private theorem linesOk_enter {l : LineState} {log : LineLog} (h : LinesOk l log)
    (hk : l.Keeps .enter) : LinesOk (l.apply .enter) (log.apply l.display .enter) := by
  have hpos := LineState.positionsOk_apply (a := .enter) h.positions trivial
  have hd := h.positions.display
  -- only the displayed terminal has an unread line now
  have honly : ∀ t < terminalTotalNum, (l.apply .enter).enterFlag t = 1 → t = l.display := by
    intro t ht hone
    by_contra htd
    have hkeep : (l.apply .enter).enterFlag t = l.enterFlag t := Function.update_of_ne htd _ _
    exact hk t ht htd (hkeep ▸ hone)
  have hline := typed_length h hd
  refine ⟨hpos, fun t ht => ?_, not_mem_update h.typed_chars _ List.not_mem_nil,
    not_mem_update h.ended_chars _ (h.typed_chars _), fun t => ?_, fun t ht hone => ?_,
    fun t ht u hu htone huone => (honly t ht htone).trans (honly u hu huone).symm⟩
  · rw [LineState.pending_enter]
    by_cases htd : t = l.display
    · subst htd
      simp only [if_true, LineLog.apply, Function.update_self]
      exact .inr ⟨rfl, rfl⟩
    · simp only [if_neg htd, LineLog.apply, Function.update_of_ne htd]
      exact h.typed t ht
  · by_cases htd : t = l.display
    · subst htd
      simpa only [LineLog.apply, Function.update_self] using hline
    · simpa only [LineLog.apply, Function.update_of_ne htd] using h.ended_length t
  · -- Enter copies the pending line to the array that all terminals share
    obtain rfl := honly t ht hone
    have hcopy : (l.apply .enter).saved.contents = l.pending l.display := by
      rw [LineState.pending_display]
      exact FillBuffer.contents_copy (Nat.le_succ_of_le h.positions.live)
    simp only [hcopy, LineLog.apply, Function.update_self]
    exact h.typed _ hd

/-- A read takes the line of its terminal. -/
private theorem linesOk_read {l : LineState} {log : LineLog} (h : LinesOk l log) {n : Nat}
    (ha : l.Enabled (.read n)) (hk : l.Keeps (.read n)) :
    LinesOk (l.apply (.read n)) (log.apply l.display (.read n)) := by
  have hpos := LineState.positionsOk_apply h.positions ha
  have hd := h.positions.display
  obtain ⟨hn, hflagn⟩ := ha
  -- the reader was the only one, so no unread line is left
  have hnone : ∀ t < terminalTotalNum, (l.apply (.read n)).enterFlag t ≠ 1 := by
    intro t ht hone
    by_cases htn : t = n
    · subst htn
      have hzero : (l.apply (.read t)).enterFlag t = 0 := Function.update_self ..
      exact absurd (hzero.symm.trans hone) (by decide)
    · have hkeep : (l.apply (.read n)).enterFlag t = l.enterFlag t :=
        Function.update_of_ne htn _ _
      exact htn (h.one_unread t ht n hn (hkeep ▸ hone) hflagn)
  refine ⟨hpos, fun t ht => ?_, h.typed_chars, h.ended_chars, h.ended_length,
    fun t ht hone => absurd hone (hnone t ht), fun t ht _ _ hone => absurd hone (hnone t ht)⟩
  -- the read clears the pending lines of the reader and of the displayed terminal
  rw [LineState.pending_read]
  split_ifs with htd
  · rcases htd with rfl | rfl
    · exact .inl (typed_eq_nil h hd hk.1).symm
    · exact .inl (typed_eq_nil h ht hk.2).symm
  · exact h.typed t ht

/-- **One step**: an action that meets the condition keeps the buffers and the history
    together. -/
theorem linesOk_apply {l : LineState} {log : LineLog} (h : LinesOk l log) {a : LineAction}
    (ha : l.Enabled a) (hk : l.Keeps a) : LinesOk (l.apply a) (log.apply l.display a) := by
  have hd := h.positions.display
  cases a with
  | other => exact h
  | switch n =>
    refine linesOk_of_typed h ha (by simp) (by simp) (fun t ht => ?_) h.typed_chars
    rw [LineState.pending_switch h.positions ha]
    exact h.typed t ht
  | letter c =>
    refine linesOk_of_typed h ha (by simp) (by simp) (fun t ht => ?_)
      (not_mem_update h.typed_chars _ (not_mem_concat (h.typed_chars _) ha))
    rw [LineState.pending_letter]
    by_cases htd : t = l.display
    · -- the newline of the last Enter is gone, so the buffer holds the typed line
      subst htd
      have heq : l.pending l.display = log.typed l.display :=
        (h.typed _ hd).resolve_right fun hnl => hk.1 hnl.1
      -- and there is room for one more letter
      have hroom : typeLetter (log.typed l.display) c = log.typed l.display ++ [c] :=
        if_pos (heq ▸ hk.2)
      simp only [if_true, LineLog.apply, Function.update_self, heq, hroom]
      exact .inl rfl
    · simp only [if_neg htd, LineLog.apply, Function.update_of_ne htd]
      exact h.typed t ht
  | erase =>
    refine linesOk_of_typed h ha (by simp) (by simp) (fun t ht => ?_)
      (not_mem_update h.typed_chars _ fun hmem =>
        h.typed_chars _ (List.dropLast_subset _ hmem))
    rw [LineState.pending_erase]
    by_cases htd : t = l.display
    · subst htd
      simp only [if_true, LineLog.apply, Function.update_self]
      -- behind an Enter the buffer holds only the newline, and that is what goes
      rcases h.typed _ hd with heq | ⟨heq, hnil⟩
      · exact .inl (by rw [heq])
      · exact .inl (by rw [heq, hnil]; rfl)
    · simp only [if_neg htd, LineLog.apply, Function.update_of_ne htd]
      exact h.typed t ht
  | enter => exact linesOk_enter h hk
  | read n => exact linesOk_read h ha hk

/-! ## What a read delivers -/

/-- The copy loop of `terminal_read` ends at index `k`: with a newline, or with the limit. -/
def ReadStops (saved : Buffer) (nbytes : Int) (k : Nat) : Prop :=
  saved k = newline ∨ (k : Int) = nbytes - 1

instance (saved : Buffer) (nbytes : Int) : DecidablePred (ReadStops saved nbytes) := fun _ =>
  inferInstanceAs (Decidable (_ ∨ _))

/-- The loop copies up to the first index at which it ends. -/
theorem readLoop_stop {saved : Buffer} {nbytes : Int} {k : Nat} (hstop : ReadStops saved nbytes k)
    (hbefore : ∀ j < k, ¬ ReadStops saved nbytes j) (fuel i : Nat) (buf : Buffer) (hi : i ≤ k)
    (hfuel : k - i < fuel) :
    (readLoop saved nbytes fuel i buf).1 = k + 1 ∧
      ∀ j, (readLoop saved nbytes fuel i buf).2 j =
        if i ≤ j ∧ j ≤ k then saved j else buf j := by
  -- on the fuel; the loop has stored what lies between its start and `i`
  induction fuel generalizing i buf with
  | zero => exact absurd hfuel (Nat.not_lt_zero _)
  | succ fuel ih =>
    unfold readLoop
    rcases Nat.lt_or_eq_of_le hi with hlt | rfl
    · -- before that index the loop goes on
      have hgo : ¬ (saved i = newline ∨ (i : Int) = nbytes - 1) := hbefore i hlt
      simp only [if_neg hgo]
      obtain ⟨hcount, hcells⟩ := ih (i + 1) (Function.update buf i (saved i)) hlt (by omega)
      refine ⟨hcount, fun j => ?_⟩
      -- the byte just stored, one of the others stored, or one beyond
      rw [hcells]
      by_cases hji : j = i
      · subst hji
        have : ¬ (j + 1 ≤ j ∧ j ≤ k) := by omega
        rw [if_neg this, if_pos ⟨Nat.le_refl j, hi⟩, Function.update_self]
      · rw [Function.update_of_ne hji]
        by_cases hj : i ≤ j ∧ j ≤ k
        · rw [if_pos hj, if_pos (by omega)]
        · rw [if_neg hj, if_neg (by omega)]
    · -- there it stores one more byte and ends
      have hend : saved i = newline ∨ (i : Int) = nbytes - 1 := hstop
      rw [if_pos hend]
      refine ⟨rfl, fun j => ?_⟩
      show Function.update buf i (saved i) j = _
      by_cases hj : j = i
      · subst hj
        rw [Function.update_self, if_pos ⟨Nat.le_refl j, Nat.le_refl j⟩]
      · rw [Function.update_of_ne hj, if_neg (by omega)]

/-- With the newline stored, the saved line of an unread Enter is the ended line followed by
    a newline. -/
theorem saved_line {b : FillBuffer UInt8} {ended : List UInt8}
    (h : StandsFor b.contents ended) :
    (∀ i, (hi : i < ended.length) → (b.push newline).cells i = ended[i]) ∧
      (b.push newline).cells ended.length = newline := by
  -- the line is the saved contents, or an empty line saved behind a newline
  rcases h with rfl | ⟨hcontents, rfl⟩
  · refine ⟨fun i hi => ?_, ?_⟩
    · have hne : i ≠ b.fill := by
        rw [FillBuffer.length_contents] at hi
        exact Nat.ne_of_lt hi
      rw [← FillBuffer.cells_eq_of_contents hi]
      exact Function.update_of_ne hne _ _
    · rw [FillBuffer.length_contents]
      exact Function.update_self ..
  · -- an empty line stands behind the newline of the last Enter
    refine ⟨fun i hi => absurd hi (Nat.not_lt_zero i), ?_⟩
    have hfill : b.fill = 1 := by rw [← FillBuffer.length_contents, hcontents]; rfl
    have hzero : (b.push newline).cells 0 = b.cells 0 :=
      Function.update_of_ne (by rw [hfill]; decide) _ _
    have hmem : 0 < b.contents.length := by rw [hcontents]; decide
    rw [List.length_nil, hzero, FillBuffer.cells_eq_of_contents hmem]
    simp [hcontents]

/-- The saved line with its newline, as the loop delivers it up to the index at which it ends. -/
theorem readLoop_delivers {b : FillBuffer UInt8} (hfill : b.fill ≤ bufferSize) {nbytes : Int}
    {k : Nat} (hk : k ≤ b.fill) (hstop : ReadStops (b.push newline).cells nbytes k)
    (hbefore : ∀ j < k, ¬ ReadStops (b.push newline).cells nbytes j) (buf : Buffer) :
    (readLoop (b.push newline).cells nbytes (bufferSize + 1) 0 buf).1 = k + 1 ∧
      (List.range (k + 1)).map
        (readLoop (b.push newline).cells nbytes (bufferSize + 1) 0 buf).2 =
          (b.contents ++ [newline]).take (k + 1) ∧
      ∀ i, k + 1 ≤ i → (readLoop (b.push newline).cells nbytes (bufferSize + 1) 0 buf).2 i =
        buf i := by
  -- the newline is behind the contents, so no read goes further
  obtain ⟨hline, hend⟩ := saved_line (b := b) (.inl rfl)
  have hlength := b.length_contents
  obtain ⟨hcount, hcells⟩ := readLoop_stop hstop hbefore (bufferSize + 1) 0 buf (Nat.zero_le _)
    (by omega)
  refine ⟨hcount, ?_, fun i hi => (hcells i).trans (if_neg (by omega))⟩
  refine List.ext_getElem (by simp [hlength, hk]) fun i hi hi' => ?_
  rw [List.length_map, List.length_range] at hi
  rw [List.getElem_map, List.getElem_range, List.getElem_take, hcells i,
    if_pos ⟨Nat.zero_le _, Nat.le_of_lt_succ hi⟩]
  -- the letters of the line, then the newline
  by_cases hin : i < b.contents.length
  · rw [List.getElem_append_left hin, hline i hin]
  · have hlast : i = b.contents.length := by omega
    subst hlast
    rw [List.getElem_concat_length rfl, hend]

/-- The copy loop delivers the line that the saved line stands for. -/
theorem readLoop_line {b : FillBuffer UInt8} {line : List UInt8} (h : StandsFor b.contents line)
    (hchars : newline ∉ line) (hlength : line.length ≤ bufferSize) {nbytes : Int}
    (hn : 128 ≤ nbytes) (buf : Buffer) :
    (readLoop (b.push newline).cells nbytes (bufferSize + 1) 0 buf).1 = line.length + 1 ∧
      (List.range (line.length + 1)).map
        (readLoop (b.push newline).cells nbytes (bufferSize + 1) 0 buf).2 = line ++ [newline] := by
  obtain ⟨hline, hend⟩ := saved_line h
  have hcontents := b.length_contents
  have hfill : line.length ≤ b.fill ∧ b.fill ≤ bufferSize := by
    rcases h with heq | ⟨heq, hnil⟩
    · rw [heq] at hcontents
      omega
    · rw [heq, List.length_singleton] at hcontents
      simp only [hnil, List.length_nil, ← hcontents, bufferSize]
      decide
  -- a request of 128 bytes has room for the line and its newline
  have hbefore : ∀ j < line.length, ¬ ReadStops (b.push newline).cells nbytes j := by
    rintro j hj (heq | heq)
    · rw [hline j hj] at heq
      exact hchars (heq ▸ List.getElem_mem hj)
    · simp only [bufferSize] at hlength
      omega
  obtain ⟨hcount, hcells, -⟩ := readLoop_delivers hfill.2 hfill.1 (.inl hend) hbefore buf
  refine ⟨hcount, hcells.trans ?_⟩
  rcases h with heq | ⟨heq, hnil⟩
  · rw [heq]
    exact List.take_of_length_le (by simp)
  · rw [heq, hnil]
    rfl

/-- With the invariant, a read that completes delivers the ended line. -/
theorem deliversLine_of_linesOk {tty : Tty} {log : LineLog} (h : LinesOk tty.lineState log)
    (e : TtyEvent) (ha : tty.lineState.Enabled (lineAction tty e)) :
    DeliversLine (tty, log) e := by
  cases e with
  | key | switch | write => trivial
  | read t buf nbytes =>
    cases buf with
    | none => trivial
    | some buf =>
      rintro hn r hread
      -- the read returns because a line of `t` waits
      obtain ⟨ht, hflag⟩ : t < terminalTotalNum ∧ tty.lineState.enterFlag t = 1 := ha
      obtain ⟨hcount, hline⟩ :=
        readLoop_line (h.saved t ht hflag) (h.ended_chars t) (h.ended_length t) hn buf
      have hwaits : (tty.terminals t).enterFlag = 1 := hflag
      simp only [terminalRead, if_pos hwaits, Option.mem_def, Option.some.injEq] at hread
      subst hread
      exact ⟨congrArg Int.ofNat hcount, congrArg some hline⟩

/-! ## Runs -/

/-- `init_terminal` and an empty history. -/
theorem linesOk_initTerminal (tty : Tty) : LinesOk (initTerminal tty).lineState LineLog.empty := by
  obtain ⟨hpos, hterm⟩ := initTerminal_lineState tty
  have hflag : ∀ t < terminalTotalNum, (initTerminal tty).lineState.enterFlag t ≠ 1 := by
    intro t ht
    rw [(hterm t ht).2]
    decide
  exact
    { positions := hpos
      typed := fun t ht => .inl (hterm t ht).1
      typed_chars := fun _ => List.not_mem_nil
      ended_chars := fun _ => List.not_mem_nil
      ended_length := fun _ => Nat.zero_le _
      saved := fun t ht hone => absurd hone (hflag t ht)
      one_unread := fun t ht _ _ hone => absurd hone (hflag t ht) }

/-- **Lines go to the terminal they were typed on**: in every run from `init_terminal` whose
    steps meet the condition, a read that completes delivers the line last ended on its
    terminal. -/
theorem lines_reach_their_terminal (tty : Tty) (es : List TtyEvent)
    (h : EachStep loggedStep KeepsLines (initTerminal tty, LineLog.empty) es) :
    EachStep loggedStep DeliversLine (initTerminal tty, LineLog.empty) es := by
  refine eachStep_of_invariant (I := fun s => LinesOk s.1.lineState s.2) ?_ ?_
    (linesOk_initTerminal tty) h
  · rintro ⟨tty, log⟩ e s' hs hk hstep
    obtain ⟨tty', hstep', rfl⟩ := Option.map_eq_some_iff.mp hstep
    obtain ⟨ha, happly⟩ := ttyStep_lineState hstep'
    simp only [happly]
    exact linesOk_apply hs ha hk
  · rintro ⟨tty, log⟩ e s' hs _ hstep
    obtain ⟨tty', hstep', -⟩ := Option.map_eq_some_iff.mp hstep
    exact deliversLine_of_linesOk hs e (ttyStep_lineState hstep').1

/-- 128 letters are shown and 127 kept, so a backspace leaves 126 of the 127 letters that are still
    on the screen. -/
example : ¬ EachStep loggedStep DeliversLine (initTerminal zeroTty, LineLog.empty)
    (List.replicate 128 (.key 0x1e) ++ [.key 0x0e, .key 0x1c, .read 0 (some fun _ => 0) 128]) := by
  decide +kernel

/-- Lines on two terminals, each read before the next Enter elsewhere. -/
theorem lines_reach_their_terminal_two_readers :
    EachStep loggedStep DeliversLine (initTerminal zeroTty, LineLog.empty)
      [.key 0x1e, .key 0x1c, .read 0 (some fun _ => 0) 128, .switch 1, .key 0x30, .key 0x30,
        .key 0x0e, .key 0x1c, .switch 0, .read 1 (some fun _ => 0) 128] :=
  lines_reach_their_terminal zeroTty _ (by decide +kernel)

/-- `a` and Enter on terminal 0, Alt+F2, `b` and Enter on terminal 1: the read of terminal 0
    delivers the line of terminal 1. -/
theorem line_of_other_terminal :
    ¬ EachStep loggedStep DeliversLine (initTerminal zeroTty, LineLog.empty)
      [.key 0x1e, .key 0x1c, .key 0x38, .key 0x3c, .key 0xb8, .key 0x30, .key 0x1c,
        .read 0 (some fun _ => 0) 128] := by
  decide +kernel

end LinuxLikeOs
