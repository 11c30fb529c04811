import Mathlib.Data.Nat.Find
import LinuxLikeOs.LineOwnership

/-!
# The count and the cost of a read

`terminal_read` copies the saved line up to its newline or up to the caller's limit, and then
clears two buffers: the live one and the one of its own terminal.

- `readRespects_iff`: the lines and limits for which it delivers what fits
- `reads_keep_others_iff`: the runs in which no read takes the text of another terminal
-/

namespace LinuxLikeOs

open Library

/-! ## What fits into the caller's buffer -/

/-- A read that does not wait delivers as much of the saved line and its newline as the caller
    asks for, and leaves the rest of the buffer as it is. -/
def Tty.ReadRespects (tty : Tty) (t : Nat) (buf : Buffer) (nbytes : Int) : Prop :=
  let line := tty.lineState.saved.contents
  let count := min nbytes.toNat (line.length + 1)
  ∃ out tty', terminalRead tty t (some buf) nbytes = some ((count : Int), some out, tty') ∧
    (List.range count).map out = (line ++ [newline]).take count ∧
    ∀ i, count ≤ i → out i = buf i

/-- Where the loop ends, for a saved line that fits into its array. -/
private theorem exists_first_stop (b : FillBuffer UInt8) (nbytes : Int) :
    ∃ k ≤ b.fill, ReadStops (b.push newline).cells nbytes k ∧
      ∀ j < k, ¬ ReadStops (b.push newline).cells nbytes j := by
  have hnewline : ReadStops (b.push newline).cells nbytes b.fill :=
    .inl (Function.update_self ..)
  have hstops : ∃ k, ReadStops (b.push newline).cells nbytes k := ⟨_, hnewline⟩
  exact ⟨Nat.find hstops, Nat.find_min' hstops hnewline, Nat.find_spec hstops,
    fun j hj => Nat.find_min hstops hj⟩

/-- The loop ends where it should exactly if the limit is positive and no newline stands in the
    part of the line before the limit. -/
private theorem stop_eq_count_iff {b : FillBuffer UInt8} {nbytes : Int} {k : Nat} (hk : k ≤ b.fill)
    (hstop : ReadStops (b.push newline).cells nbytes k)
    (hbefore : ∀ j < k, ¬ ReadStops (b.push newline).cells nbytes j) :
    k + 1 = min nbytes.toNat (b.fill + 1) ↔
      0 < nbytes ∧ newline ∉ b.contents.take (nbytes - 1).toNat := by
  obtain ⟨hline, -⟩ := saved_line (b := b) (.inl rfl)
  have hlength := b.length_contents
  constructor
  · intro hcount
    have hpos : 0 < nbytes := by omega
    refine ⟨hpos, fun hmem => ?_⟩
    -- a newline in that part would have ended the loop earlier
    obtain ⟨j, hj, hget⟩ := List.getElem_of_mem hmem
    rw [List.length_take] at hj
    have hjb : j < b.contents.length := by omega
    have hcell : (b.push newline).cells j = newline := by
      rw [hline j hjb, ← hget, List.getElem_take]
    exact hbefore j (by omega) (.inl hcell)
  · rintro ⟨hpos, hnone⟩
    have hlimit : (k : Int) ≤ nbytes - 1 := by
      by_contra hgt
      exact hbefore (nbytes - 1).toNat (by omega) (.inr (by omega))
    rcases hstop with hnl | heq
    · -- a newline before the limit can only be the one behind the line
      by_cases hat : (k : Int) = nbytes - 1
      · omega
      · by_cases hin : k < b.contents.length
        · rw [hline k hin] at hnl
          have hmem : b.contents[k] ∈ b.contents.take (nbytes - 1).toNat := by
            rw [← List.getElem_take (j := (nbytes - 1).toNat) (h := by
              rw [List.length_take]; omega)]
            exact List.getElem_mem _
          exact absurd (hnl ▸ hmem) hnone
        · omega
    · omega

/-- **What a read delivers**: for every saved line that fits into its array and every limit, a
    read that does not wait respects the limit exactly if it is positive and no newline stands in
    the part of the line before it. -/
theorem readRespects_iff {tty : Tty} {t : Nat}
    (hlength : tty.keyboard.savedBufferPosition ≤ bufferSize)
    (hflag : (tty.terminals t).enterFlag = 1) (buf : Buffer) (nbytes : Int) :
    tty.ReadRespects t buf nbytes ↔
      0 < nbytes ∧ newline ∉ tty.lineState.saved.contents.take (nbytes - 1).toNat := by
  -- the loop stops at the first newline or at the last byte asked for
  obtain ⟨k, hk, hstop, hbefore⟩ := exists_first_stop tty.lineState.saved nbytes
  obtain ⟨hcount, hdelivered, hrest⟩ := readLoop_delivers hlength hk hstop hbefore buf
  rw [← stop_eq_count_iff hk hstop hbefore]
  simp only [Tty.ReadRespects, terminalRead, if_pos hflag, FillBuffer.length_contents]
  constructor
  · rintro ⟨out, tty', hread, -⟩
    have hvalue := congrArg Prod.fst (Option.some.inj hread)
    exact hcount.symm.trans (Int.ofNat.inj hvalue)
  · intro heq
    rw [← heq]
    exact ⟨_, _, by rw [← hcount]; rfl, hdelivered, hrest⟩

/-- Terminal 0 after the keys `a`, `b`, `c` and Enter. -/
def threeLettersSaved : Tty := [0x1e, 0x30, 0x2e, 0x1c].foldl keyboardHandler (initTerminal zeroTty)

/-- A limit inside the line. -/
theorem readRespects_iff_three_letters :
    threeLettersSaved.lineState.saved.contents = [97, 98, 99] ∧
      (threeLettersSaved.ReadRespects 0 (fun _ => 0) 2 ↔
        (0 : Int) < 2 ∧
          newline ∉ threeLettersSaved.lineState.saved.contents.take ((2 : Int) - 1).toNat) :=
  ⟨by decide +kernel, readRespects_iff (by decide +kernel) (by decide +kernel) _ _⟩

/-- Terminal 0 after Enter on an empty line. -/
def emptyLineSaved : Tty := keyboardHandler (initTerminal zeroTty) 0x1c

/-- A request of 0 bytes stores the newline and returns 1. -/
theorem read_of_no_bytes_delivers_one :
    emptyLineSaved.keyboard.savedBufferPosition ≤ bufferSize ∧
      (emptyLineSaved.terminals 0).enterFlag = 1 ∧
      ¬ emptyLineSaved.ReadRespects 0 (fun _ => 0) 0 := by
  refine ⟨by decide +kernel, by decide +kernel, ?_⟩
  rintro ⟨out, tty', hread, -⟩
  have hvalue : (terminalRead emptyLineSaved 0 (some fun _ => 0) 0).map Prod.fst = some 1 := by
    decide +kernel
  rw [hread, Option.map_some, Option.some.injEq] at hvalue
  omega

/-! ## Text on the other terminals -/

/-- A read that completes leaves the waiting text of the other terminals as it is. -/
def ReadKeepsOthers (tty : Tty) : TtyEvent → Prop
  | .read t buf nbytes => ∀ tty' ∈ ttyStep tty (.read t buf nbytes),
    ∀ u < terminalTotalNum, u ≠ t → tty'.lineState.pending u = tty.lineState.pending u
  | .key _ | .switch _ | .write .. => True

instance (tty : Tty) : ∀ e, Decidable (ReadKeepsOthers tty e)
  | .read .. => inferInstanceAs (Decidable (∀ _ ∈ _, ∀ _ < _, _ → _))
  | .key _ | .switch _ | .write .. => isTrue trivial

/-- The reader's terminal is the displayed one, or nothing waits on the displayed one. -/
def ReadsWhileIdle (tty : Tty) : TtyEvent → Prop
  | .read t (some _) _ =>
    t = tty.curDisplayTid ∨ tty.lineState.pending tty.curDisplayTid = []
  | .read _ none _ | .key _ | .switch _ | .write .. => True

instance (tty : Tty) : ∀ e, Decidable (ReadsWhileIdle tty e)
  | .read _ (some _) _ => inferInstanceAs (Decidable (_ ∨ _))
  | .read _ none _ | .key _ | .switch _ | .write .. => isTrue trivial

/-- **One read** clears the text of its own terminal and of the displayed one. -/
theorem readKeepsOthers_iff {tty tty' : Tty} (hdisplay : tty.curDisplayTid < terminalTotalNum)
    {e : TtyEvent} (hstep : ttyStep tty e = some tty') :
    ReadKeepsOthers tty e ↔ ReadsWhileIdle tty e := by
  have happly := (ttyStep_lineState hstep).2
  -- only a read clears anything, and it clears what is live as well as the saved line
  cases e with
  | key | switch | write => exact Iff.rfl
  | read t buf nbytes =>
    cases buf with
    | none =>
      refine iff_of_true (fun tty₁ hread u _ _ => ?_) trivial
      obtain rfl := Option.some.inj (hstep.symm.trans hread)
      rw [happly]
      rfl
    | some buf =>
      constructor
      · intro hkeeps
        by_cases ht : t = tty.curDisplayTid
        · exact .inl ht
        · -- the text on the displayed terminal is gone, so there was none
          have hgone := hkeeps tty' hstep _ hdisplay (Ne.symm ht)
          rw [happly, lineAction, LineState.pending_read, if_pos (.inl rfl)] at hgone
          exact .inr hgone.symm
      · intro hidle tty₁ hread u _ hut
        obtain rfl := Option.some.inj (hstep.symm.trans hread)
        rw [happly, lineAction, LineState.pending_read]
        split_ifs with hcleared
        · obtain rfl := hcleared.resolve_right hut
          exact (hidle.resolve_left (Ne.symm hut)).symm
        · rfl

/-- **Runs**: in a run from `init_terminal` no completed read takes the waiting text of another
    terminal exactly if every read by a process in the background finds none on the displayed
    terminal. -/
theorem reads_keep_others_iff (tty : Tty) (es : List TtyEvent) :
    EachStep ttyStep ReadKeepsOthers (initTerminal tty) es ↔
      EachStep ttyStep ReadsWhileIdle (initTerminal tty) es := by
  refine eachStep_iff_eachStep (E := fun _ => True) (J := fun s => s.lineState.PositionsOk)
    (fun s e s' hpos _ _ hstep => ?_) (fun s e s' hpos _ hstep => ?_)
    (initTerminal_lineState tty).1 fun _ _ => trivial
  · obtain ⟨henabled, happly⟩ := ttyStep_lineState hstep
    rw [happly]
    exact LineState.positionsOk_apply hpos henabled
  · exact readKeepsOthers_iff hpos.display hstep

/-- Enter on terminal 0, a letter on terminal 1, and the read of terminal 0 takes the letter. -/
theorem background_read_takes_letter :
    ¬ EachStep ttyStep ReadKeepsOthers (initTerminal zeroTty)
      [.key 0x1c, .switch 1, .key 0x30, .read 0 (some fun _ => 0) 128] := by
  decide +kernel

end LinuxLikeOs
