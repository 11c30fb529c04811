import LinuxLikeOs.Library.Trace
import LinuxLikeOs.ScreenLaws
import LinuxLikeOs.Terminal

/-!
# Three independent consoles

The logical screen of a terminal is its text page with its cursor: video memory while it
is displayed, its buffer page otherwise.

- **Abstract model**: `Consoles`, one `LogicalScreen` for each terminal; a write changes
  the screen of its own terminal and a switch changes nothing
- **Refinement**: `consoles_step` and `consoles_exec`: the code's terminals behave as
  the abstract consoles under any interleaving of writes and switches
- **Independence**: `consoles_independent`: each terminal ends as if it had been displayed
  and alone all the time
-/

namespace LinuxLikeOs

open Library

/-! ## Logical screens -/

/-- A 4 KB text page with its cursor. -/
@[ext] structure LogicalScreen where
  cell : Fin 4096 → UInt8
  x : Int
  y : Int

/-- What a `Screen` shows. -/
def Screen.logical (s : Screen) : LogicalScreen :=
  ⟨fun i => s.mem (video + (i : Nat)), s.screenX, s.screenY⟩

/-- The logical screen of terminal `t`. -/
def logicalScreen (tty : Tty) (t : Nat) : LogicalScreen :=
  if tty.curDisplayTid = t then tty.screen.logical
  else
    let term := tty.terminals t
    ⟨fun i => tty.screen.mem (term.vidBuf + (i : Nat)), term.xPosition, term.yPosition⟩

/-- Video memory showing a logical screen. -/
def LogicalScreen.toScreen (l : LogicalScreen) : Screen :=
  ⟨fun a => if h : (a - video).toNat < 4096 then l.cell ⟨(a - video).toNat, h⟩ else 0, l.x, l.y⟩

/-- Draw one character on a logical screen. -/
def LogicalScreen.draw (l : LogicalScreen) (c1 c : UInt8) : LogicalScreen :=
  (specialPutc l.toScreen c1 c).logical

/-- Draw the first `n` bytes of a buffer. -/
def LogicalScreen.drawAll (l : LogicalScreen) (buf : Buffer) (n : Nat) : LogicalScreen :=
  (List.range n).foldl (fun l i => l.draw (previousChar buf i) (buf i)) l

@[simp] theorem LogicalScreen.toScreen_logical (l : LogicalScreen) : l.toScreen.logical = l := by
  refine LogicalScreen.ext (funext fun i => ?_) ?_ ?_
  · have hi : (video + ((i : Nat) : Int) - video).toNat = i := by omega
    simp only [Screen.logical, LogicalScreen.toScreen, hi]
    exact dif_pos i.isLt
  · rfl
  · rfl

/-- Two screens that show the same agree on the page. -/
theorem agreeOn_of_logical_eq {s s' : Screen} (h : s.logical = s'.logical) :
    AgreeOn video s.mem s'.mem := by
  intro a h1 h2
  have hi : (a - video).toNat < 4096 := by simp only [fourKB] at h2; omega
  have hcell := congrFun (congrArg LogicalScreen.cell h) ⟨(a - video).toNat, hi⟩
  simp only [Screen.logical] at hcell
  rwa [show video + ((a - video).toNat : Int) = a by omega] at hcell

theorem logical_eq_of_agreeOn {s s' : Screen} (hmem : AgreeOn video s.mem s'.mem)
    (hx : s.screenX = s'.screenX) (hy : s.screenY = s'.screenY) : s.logical = s'.logical := by
  refine LogicalScreen.ext (funext fun i => ?_) ?_ ?_
  · have := i.isLt
    exact hmem _ (by omega) (by simp only [fourKB]; omega)
  · exact hx
  · exact hy

/-- Drawing on a screen is drawing on what it shows. -/
theorem logical_specialPutc (s : Screen) (c1 c : UInt8) :
    (specialPutc s c1 c).logical = s.logical.draw c1 c := by
  have hshow : s.logical = s.logical.toScreen.logical := by simp
  obtain ⟨hmem, hx, hy⟩ :=
    specialPutc_agreeOn (agreeOn_of_logical_eq hshow) s.screenX s.screenY c1 c
  exact logical_eq_of_agreeOn hmem hx hy

/-- The cursor range of a logical screen between two calls of `terminal_write`. -/
def LogicalScreen.CursorOk (l : LogicalScreen) : Prop := LinuxLikeOs.CursorOk l.toScreen 0

/-! ## Writing one buffer -/

/-- The foreground loop of `terminal_write`, after `n` bytes. -/
private def foregroundLoop (s : Screen) (buf : Buffer) (n : Nat) : Screen :=
  (List.range n).foldl (fun s i => specialPutc s (previousChar buf i) (buf i)) s

/-- The background loop of `terminal_write`, after `n` bytes. -/
private def backgroundLoop (m : Memory × Terminal) (buf : Buffer) (n : Nat) : Memory × Terminal :=
  (List.range n).foldl
    (fun m i => terminalSpecialPutc m.1 m.2 (previousChar buf i) (buf i)) m

private theorem foregroundLoop_spec {s : Screen} (h : CursorOk s 0) (buf : Buffer) (n : Nat) :
    CursorOk (foregroundLoop s buf n) (previousChar buf n) ∧
      (foregroundLoop s buf n).logical = s.logical.drawAll buf n ∧
      AgreeOff video (foregroundLoop s buf n).mem s.mem := by
  induction n with
  | zero => exact ⟨h, rfl, AgreeOff.refl _ _⟩
  | succ n ih =>
    obtain ⟨hcursor, hlogical, hoff⟩ := ih
    -- the loop of `terminal_write` draws the letters in order, so round `n` draws letter `n`
    have hstep : foregroundLoop s buf (n + 1) =
        specialPutc (foregroundLoop s buf n) (previousChar buf n) (buf n) := by
      simp [foregroundLoop, List.range_succ]
    have hdraw : s.logical.drawAll buf (n + 1) =
        (s.logical.drawAll buf n).draw (previousChar buf n) (buf n) := by
      simp [LogicalScreen.drawAll, List.range_succ]
    rw [hstep, hdraw, ← hlogical]
    exact ⟨specialPutc_cursorOk hcursor, logical_specialPutc _ _ _,
      (specialPutc_agreeOff _ hcursor).trans hoff⟩

/-- The background loop draws what the foreground loop draws on the shifted page. -/
private theorem backgroundLoop_spec (mem : Memory) (term : Terminal) (buf : Buffer) (n : Nat) :
    (backgroundLoop (mem, term) buf n).2.screen (backgroundLoop (mem, term) buf n).1 =
        foregroundLoop (term.screen mem) buf n ∧
      (backgroundLoop (mem, term) buf n).2.vidBuf = term.vidBuf := by
  induction n with
  | zero => exact ⟨rfl, rfl⟩
  | succ n ih =>
    have hstep : backgroundLoop (mem, term) buf (n + 1) =
        terminalSpecialPutc (backgroundLoop (mem, term) buf n).1
          (backgroundLoop (mem, term) buf n).2 (previousChar buf n) (buf n) := by
      simp [backgroundLoop, List.range_succ]
    have hfore : foregroundLoop (term.screen mem) buf (n + 1) =
        specialPutc (foregroundLoop (term.screen mem) buf n) (previousChar buf n) (buf n) := by
      simp [foregroundLoop, List.range_succ]
    -- a letter drawn into a buffer page is the same letter drawn on the screen of that terminal
    rw [hstep, hfore, terminalSpecialPutc_shift, terminalSpecialPutc_vidBuf, ih.1, ih.2]
    exact ⟨rfl, rfl⟩

/-- Drawing on the page of a terminal in the background changes that page only. -/
private theorem backgroundLoop_agreeOff {mem : Memory} {term : Terminal} {buf : Buffer} {n : Nat}
    (h : CursorOk (term.screen mem) 0) :
    AgreeOff term.vidBuf (backgroundLoop (mem, term) buf n).1 mem := by
  obtain ⟨hscreen, hbase⟩ := backgroundLoop_spec mem term buf n
  have hoff := (foregroundLoop_spec h buf n).2.2
  rw [← hscreen] at hoff
  intro a ha
  have hshift := hoff (a - term.vidBuf + video) (by omega)
  simp only [Terminal.screen, pageView, hbase] at hshift
  rwa [show a - term.vidBuf + video - video + term.vidBuf = a by omega] at hshift

/-! ## The abstract model -/

/-- Three screens that know nothing of each other. -/
abbrev Consoles := Fin 3 → LogicalScreen

/-- A write draws on the screen of its terminal; switching the display changes nothing. -/
def Consoles.step (c : Consoles) : TtyEvent → Consoles
  | .write t (some buf) nbytes => fun t' =>
    if (t' : Nat) = t then (c t').drawAll buf nbytes.toNat else c t'
  | _ => c

/-- Writes by processes of the three terminals and switches of the display. -/
def TtyEvent.IsConsole : TtyEvent → Prop
  | .switch _ => True
  | .write t _ _ => t < terminalTotalNum
  | _ => False

/-- A write by a process of terminal `t`. -/
def TtyEvent.isWriteOf (t : Nat) : TtyEvent → Bool
  | .write t' _ _ => t' == t
  | _ => false

/-- The consoles that the state of the terminals stands for. -/
def consolesOf (tty : Tty) : Consoles := fun t => logicalScreen tty t

/-! ## Refinement -/

/-- What the refinement needs of the terminals: a terminal is displayed, each has its own
    page, and every cursor is in range. -/
structure ConsolesOk (tty : Tty) : Prop where
  display : tty.curDisplayTid < terminalTotalNum
  page : ∀ t < terminalTotalNum, (tty.terminals t).vidBuf = terminalPage t
  cursor : ∀ t < terminalTotalNum, (logicalScreen tty t).CursorOk

private theorem terminalPage_cases (t : Nat) :
    terminalPage t = 0xD0000 ∧ t = 0 ∨ terminalPage t = 0xD1000 ∧ t = 1 ∨
      terminalPage t = 0xD2000 ∧ 2 ≤ t := by
  match t with
  | 0 => exact .inl ⟨rfl, rfl⟩
  | 1 => exact .inr (.inl ⟨rfl, rfl⟩)
  | n + 2 => exact .inr (.inr ⟨rfl, by omega⟩)

/-- The text pages of two terminals do not overlap. -/
private theorem terminalPage_disjoint {t t' : Nat} (ht : t < terminalTotalNum)
    (ht' : t' < terminalTotalNum) (hne : t ≠ t') :
    terminalPage t' + fourKB ≤ terminalPage t ∨ terminalPage t + fourKB ≤ terminalPage t' := by
  have h := terminalPage_cases t
  have h' := terminalPage_cases t'
  simp only [terminalTotalNum, fourKB] at *
  omega

private theorem video_lt_terminalPage (t : Nat) : video + fourKB ≤ terminalPage t := by
  have h := terminalPage_cases t
  simp only [video, fourKB]
  omega

theorem logicalScreen_displayed {tty : Tty} {t : Nat} (h : tty.curDisplayTid = t) :
    logicalScreen tty t = tty.screen.logical := by
  rw [logicalScreen, if_pos h]

theorem logicalScreen_background {tty : Tty} {t : Nat} (h : tty.curDisplayTid ≠ t) :
    logicalScreen tty t = ((tty.terminals t).screen tty.screen.mem).logical := by
  rw [logicalScreen, if_neg h]
  refine LogicalScreen.ext (funext fun i => ?_) ?_ ?_
  · simp only [Terminal.screen, Screen.logical, pageView]
    congr 1
    omega
  · rfl
  · rfl

/-- The logical screen of a terminal that is not displayed is its page and its cursor. -/
private theorem logicalScreen_frame {tty tty' : Tty} {t : Nat} (h : tty.curDisplayTid ≠ t)
    (hdisplay : tty'.curDisplayTid = tty.curDisplayTid)
    (hterm : tty'.terminals t = tty.terminals t)
    (hmem : ∀ i : Fin 4096, tty'.screen.mem ((tty.terminals t).vidBuf + (i : Nat)) =
      tty.screen.mem ((tty.terminals t).vidBuf + (i : Nat))) :
    logicalScreen tty' t = logicalScreen tty t := by
  rw [logicalScreen, if_neg (by rwa [hdisplay]), logicalScreen, if_neg h, hterm]
  refine LogicalScreen.ext (funext fun i => ?_) ?_ ?_
  · exact hmem i
  · rfl
  · rfl

theorem LogicalScreen.CursorOk.of_screen {s : Screen} {c1 : UInt8}
    (h : LinuxLikeOs.CursorOk s c1) : s.logical.CursorOk :=
  ⟨h.x_nonneg, h.x_le, h.y_nonneg, h.y_lt, h.zero.after_tab⟩

theorem LogicalScreen.CursorOk.screen {s : Screen} (h : s.logical.CursorOk) :
    LinuxLikeOs.CursorOk s 0 :=
  ⟨h.x_nonneg, h.x_le, h.y_nonneg, h.y_lt, h.after_tab⟩

/-- A write to the displayed terminal. -/
private theorem write_displayed {tty : Tty} (hok : ConsolesOk tty) (buf : Buffer) (n : Nat)
    {tty' : Tty} (htty' : tty' = { tty with screen := foregroundLoop tty.screen buf n }) :
    logicalScreen tty' tty.curDisplayTid =
        (logicalScreen tty tty.curDisplayTid).drawAll buf n ∧
      (logicalScreen tty' tty.curDisplayTid).CursorOk ∧
      ∀ t' < terminalTotalNum, t' ≠ tty.curDisplayTid →
        logicalScreen tty' t' = logicalScreen tty t' := by
  -- the cursor bounds of the displayed terminal are those of `screen_x` and `screen_y`
  have hcursor : CursorOk tty.screen 0 := by
    have h := hok.cursor _ hok.display
    rw [logicalScreen_displayed rfl] at h
    exact h.screen
  obtain ⟨hok', hdraw, hoff⟩ := foregroundLoop_spec hcursor buf n
  have hshown : logicalScreen tty' tty.curDisplayTid =
      (foregroundLoop tty.screen buf n).logical := by
    subst htty'
    exact logicalScreen_displayed rfl
  refine ⟨?_, ?_, fun t' ht' hne => ?_⟩
  · -- the terminal written to: the loop draws the whole buffer
    rw [hshown, logicalScreen_displayed rfl]
    exact hdraw
  · -- its cursor stays inside the screen
    rw [hshown]
    exact .of_screen hok'
  · -- the other terminals keep their screens in buffer pages above video memory
    subst htty'
    refine logicalScreen_frame (Ne.symm hne) rfl rfl fun i => hoff _ (.inr ?_)
    have := video_lt_terminalPage t'
    rw [hok.page t' ht']
    omega

/-- A write to a terminal in the background. -/
private theorem write_background {tty : Tty} (hok : ConsolesOk tty) {t : Nat}
    (ht : t < terminalTotalNum) (hne : tty.curDisplayTid ≠ t) (buf : Buffer) (n : Nat)
    {out : Memory × Terminal} (hout : out = backgroundLoop (tty.screen.mem, tty.terminals t) buf n)
    {tty' : Tty}
    (htty' : tty' = { tty with screen := { tty.screen with mem := out.1 } }.setTerminal t out.2) :
    logicalScreen tty' t = (logicalScreen tty t).drawAll buf n ∧
      (logicalScreen tty' t).CursorOk ∧
      ∀ t' < terminalTotalNum, t' ≠ t → logicalScreen tty' t' = logicalScreen tty t' := by
  have hcursor : CursorOk ((tty.terminals t).screen tty.screen.mem) 0 := by
    have h := hok.cursor t ht
    rw [logicalScreen_background hne] at h
    exact h.screen
  obtain ⟨hok', hdraw, -⟩ := foregroundLoop_spec hcursor buf n
  obtain ⟨hscreen, -⟩ := backgroundLoop_spec tty.screen.mem (tty.terminals t) buf n
  -- the loop stores only into the buffer page of `t`
  have hoff : AgreeOff (tty.terminals t).vidBuf
      (backgroundLoop (tty.screen.mem, tty.terminals t) buf n).1 tty.screen.mem :=
    backgroundLoop_agreeOff hcursor
  rw [hok.page t ht] at hoff
  rw [← hout] at hscreen hoff
  -- `htty'` read field by field: what is displayed, the terminal's record and the memory
  have hdisplay : tty'.curDisplayTid = tty.curDisplayTid := by rw [htty']; rfl
  have hterm : tty'.terminals t = out.2 := by rw [htty']; exact Function.update_self ..
  have hmem : tty'.screen.mem = out.1 := by rw [htty']; rfl
  have hshown : logicalScreen tty' t =
      (foregroundLoop ((tty.terminals t).screen tty.screen.mem) buf n).logical := by
    rw [logicalScreen_background (by rwa [hdisplay]), hterm, hmem, hscreen]
  refine ⟨?_, ?_, fun t' ht' hne' => ?_⟩
  · rw [hshown, logicalScreen_background hne]
    exact hdraw
  · rw [hshown]
    exact .of_screen hok'
  · by_cases hd : tty.curDisplayTid = t'
    · -- the displayed screen is video memory, below every buffer page
      rw [logicalScreen_displayed hd, logicalScreen_displayed (hdisplay.trans hd)]
      refine logical_eq_of_agreeOn (fun a h1 h2 => ?_) (by rw [htty']; rfl) (by rw [htty']; rfl)
      rw [hmem]
      have := video_lt_terminalPage t
      exact hoff a (.inl (by omega))
    · -- and a terminal in the background has a page of its own, apart from the page of `t`
      refine logicalScreen_frame hd hdisplay ?_ fun i => ?_
      · rw [htty']
        exact Function.update_of_ne hne' ..
      · rw [hmem, hok.page t' ht']
        have := terminalPage_disjoint ht ht' (Ne.symm hne')
        refine hoff _ ?_
        simp only [fourKB] at *
        omega

private theorem copyPage_in {mem : Memory} {dst src a : Int} (h1 : dst ≤ a)
    (h2 : a < dst + fourKB) : copyPage mem dst src a = mem (a - dst + src) :=
  if_pos ⟨h1, h2⟩

private theorem copyPage_out {mem : Memory} {dst src a : Int}
    (h : a < dst ∨ dst + fourKB ≤ a) : copyPage mem dst src a = mem a :=
  if_neg (by omega)

/-- Text memory after a switch from terminal `d` to terminal `n`. -/
private theorem switchDisplay_mem {tty : Tty} (hok : ConsolesOk tty) {n : Nat}
    (hn : n < terminalTotalNum) (hne : tty.curDisplayTid ≠ n) :
    (switchDisplay tty n).screen.mem =
      copyPage (copyPage tty.screen.mem (terminalPage tty.curDisplayTid) video) video
        (terminalPage n) := by
  rw [← hok.page n hn, ← hok.page _ hok.display]
  simp only [switchDisplay, Tty.setTerminal, Function.update_of_ne (Ne.symm hne)]

private theorem toInt8_of_cursor {i : Int} (h0 : 0 ≤ i) (h1 : i ≤ numCols) : toInt8 i = i := by
  simp only [toInt8, numCols] at *
  omega

/-- A switch of the display shows the page of the new terminal, which has been copied to video
    memory. -/
private theorem switch_shown {tty : Tty} (hok : ConsolesOk tty) {n : Nat}
    (hn : n < terminalTotalNum) (hne : tty.curDisplayTid ≠ n) :
    logicalScreen (switchDisplay tty n) n = logicalScreen tty n := by
  have hcursor := hok.cursor n hn
  rw [logicalScreen_background hne] at hcursor
  rw [logicalScreen_displayed (by rfl), logicalScreen_background hne]
  refine LogicalScreen.ext (funext fun i => ?_) ?_ ?_
  · -- every cell: the switch copies the new terminal's page to video memory last
    have hi := i.isLt
    have hpages := terminalPage_disjoint hok.display hn hne
    have hvideo := video_lt_terminalPage n
    simp only [Screen.logical, Terminal.screen, pageView, switchDisplay_mem hok hn hne,
      hok.page n hn]
    simp only [fourKB] at hpages hvideo
    rw [copyPage_in (by omega) (by simp only [fourKB]; omega),
      copyPage_out (by simp only [fourKB]; omega)]
  · -- `screen_x` and `screen_y` are chars, and both coordinates fit
    have hx : (switchDisplay tty n).screen.screenX = toInt8 (tty.terminals n).xPosition := by
      simp only [switchDisplay, Tty.setTerminal, Function.update_of_ne (Ne.symm hne)]
    exact hx.trans (toInt8_of_cursor hcursor.x_nonneg hcursor.x_le)
  · have hy : (switchDisplay tty n).screen.screenY = toInt8 (tty.terminals n).yPosition := by
      simp only [switchDisplay, Tty.setTerminal, Function.update_of_ne (Ne.symm hne)]
    have hrows : numRows ≤ numCols := by decide
    exact hy.trans (toInt8_of_cursor hcursor.y_nonneg
      (Int.le_trans (Int.le_of_lt hcursor.y_lt) hrows))

/-- It stores video memory in the page of the terminal that was shown. -/
private theorem switch_hidden {tty : Tty} (hok : ConsolesOk tty) {n : Nat}
    (hn : n < terminalTotalNum) (hne : tty.curDisplayTid ≠ n) :
    logicalScreen (switchDisplay tty n) tty.curDisplayTid =
      logicalScreen tty tty.curDisplayTid := by
  have hcursor := hok.cursor _ hok.display
  rw [logicalScreen_displayed rfl] at hcursor
  have hterm : (switchDisplay tty n).terminals tty.curDisplayTid = savedTerminal tty :=
    Function.update_self ..
  rw [logicalScreen_background (Ne.symm hne), logicalScreen_displayed rfl, hterm]
  simp only [savedTerminal]
  refine LogicalScreen.ext (funext fun i => ?_) ?_ ?_
  · -- every cell: the switch copies video memory to the old terminal's page first
    have hi := i.isLt
    have hvideo := video_lt_terminalPage tty.curDisplayTid
    simp only [Screen.logical, Terminal.screen, pageView, switchDisplay_mem hok hn hne,
      hok.page _ hok.display]
    simp only [fourKB] at hvideo
    rw [copyPage_out (by simp only [fourKB]; omega),
      copyPage_in (by omega) (by simp only [fourKB]; omega)]
    congr 1
    omega
  · exact toInt8_of_cursor hcursor.x_nonneg hcursor.x_le
  · have hrows : numRows ≤ numCols := by decide
    exact toInt8_of_cursor hcursor.y_nonneg (Int.le_trans (Int.le_of_lt hcursor.y_lt) hrows)

/-- A terminal that neither was nor is shown keeps its page. -/
private theorem switch_other {tty : Tty} (hok : ConsolesOk tty) {n : Nat}
    (hn : n < terminalTotalNum) (hne : tty.curDisplayTid ≠ n) {t : Nat}
    (ht : t < terminalTotalNum) (htn : n ≠ t) (htd : tty.curDisplayTid ≠ t) :
    logicalScreen (switchDisplay tty n) t = logicalScreen tty t := by
  have hterm : (switchDisplay tty n).terminals t = tty.terminals t :=
    Function.update_of_ne (Ne.symm htd) ..
  rw [logicalScreen_background htn, logicalScreen_background htd, hterm]
  refine LogicalScreen.ext (funext fun i => ?_) rfl rfl
  have hi := i.isLt
  have hvideo := video_lt_terminalPage t
  have hpages := terminalPage_disjoint hok.display ht htd
  simp only [Screen.logical, Terminal.screen, pageView, switchDisplay_mem hok hn hne, hok.page t ht]
  simp only [fourKB] at hvideo hpages
  -- neither copy touches the page of a third terminal
  rw [copyPage_out (by simp only [fourKB]; omega), copyPage_out (by simp only [fourKB]; omega)]

/-- A switch of the display changes no screen. -/
private theorem switch_screens {tty : Tty} (hok : ConsolesOk tty) {n : Nat}
    (hn : n < terminalTotalNum) (hne : tty.curDisplayTid ≠ n) {t : Nat}
    (ht : t < terminalTotalNum) :
    logicalScreen (switchDisplay tty n) t = logicalScreen tty t := by
  by_cases htn : n = t
  · subst htn
    exact switch_shown hok hn hne
  by_cases htd : tty.curDisplayTid = t
  · subst htd
    exact switch_hidden hok hn hne
  · exact switch_other hok hn hne ht htn htd

/-- A write that draws on its own screen, and leaves the other screens and all pages alone, is a
    write of the abstract consoles. -/
private theorem consoles_write {tty tty' : Tty} (hok : ConsolesOk tty) {t : Nat} {buf : Buffer}
    {nbytes : Int} (hdisplay : tty'.curDisplayTid = tty.curDisplayTid)
    (hpage : ∀ t' < terminalTotalNum, (tty'.terminals t').vidBuf = (tty.terminals t').vidBuf)
    (hwrite : logicalScreen tty' t = (logicalScreen tty t).drawAll buf nbytes.toNat ∧
      (logicalScreen tty' t).CursorOk ∧
      ∀ t' < terminalTotalNum, t' ≠ t → logicalScreen tty' t' = logicalScreen tty t') :
    ConsolesOk tty' ∧ consolesOf tty' = (consolesOf tty).step (.write t (some buf) nbytes) := by
  obtain ⟨hself, hcursor, hothers⟩ := hwrite
  refine ⟨⟨?_, fun t' ht' => ?_, fun t' ht' => ?_⟩, ?_⟩
  · -- the invariant: `write` moves no page and keeps every cursor inside the screen
    rw [hdisplay]
    exact hok.display
  · exact (hpage t' ht').trans (hok.page t' ht')
  · by_cases hne : t' = t
    · rw [hne]
      exact hcursor
    · rw [hothers t' ht' hne]
      exact hok.cursor t' ht'
  · -- the abstract step: `t` gets the letters drawn, the others are as they were
    funext t'
    simp only [consolesOf, Consoles.step]
    split_ifs with hne
    · rw [hne]
      exact hself
    · exact hothers t' t'.isLt hne

/-- A switch moves pages and cursors, and every console still shows what it showed. -/
private theorem consoles_switch {tty : Tty} (hok : ConsolesOk tty) (n : Int) :
    ConsolesOk (terminalSwitch tty n).2 ∧
      consolesOf (terminalSwitch tty n).2 = (consolesOf tty).step (.switch n) := by
  unfold terminalSwitch
  split_ifs with hrange hsame
  · -- an index out of range and the terminal already shown change nothing
    exact ⟨hok, rfl⟩
  · exact ⟨hok, rfl⟩
  · simp only [terminalMaxNum] at hrange
    have hn : n.toNat < terminalTotalNum := by simp only [terminalTotalNum]; omega
    have hne : tty.curDisplayTid ≠ n.toNat := by omega
    have hscreens := fun {t} => switch_screens hok hn hne (t := t)
    refine ⟨⟨hn, fun t ht => ?_, fun t ht => ?_⟩, ?_⟩
    · by_cases htd : t = tty.curDisplayTid
      · subst htd
        simpa [switchDisplay, savedTerminal, Tty.setTerminal] using hok.page _ ht
      · simpa [switchDisplay, Tty.setTerminal, htd] using hok.page t ht
    · dsimp only
      rw [hscreens ht]
      exact hok.cursor t ht
    · funext t
      exact hscreens t.isLt

/-- One event of the code is the same event of the abstract consoles. -/
theorem consoles_step {tty tty' : Tty} {e : TtyEvent} (hok : ConsolesOk tty)
    (he : e.IsConsole) (hstep : ttyStep tty e = some tty') :
    ConsolesOk tty' ∧ consolesOf tty' = (consolesOf tty).step e := by
  cases e with
  | key | read => exact absurd he (by simp [TtyEvent.IsConsole])
  | switch n =>
    obtain rfl : (terminalSwitch tty n).2 = tty' := by simpa [ttyStep] using hstep
    exact consoles_switch hok n
  | write t buf nbytes =>
    simp only [TtyEvent.IsConsole] at he
    simp only [ttyStep, if_pos he, Option.some.injEq] at hstep
    cases buf with
    | none =>
      obtain rfl : tty = tty' := hstep
      exact ⟨hok, rfl⟩
    | some buf =>
      by_cases hd : tty.curDisplayTid = t
      · -- the write goes to video memory
        subst hd
        simp only [terminalWrite, if_true] at hstep
        have hwrite := write_displayed hok buf nbytes.toNat hstep.symm
        subst hstep
        exact consoles_write hok rfl (fun _ _ => rfl) hwrite
      · -- the write goes to the buffer page of the terminal
        simp only [terminalWrite, if_neg hd] at hstep
        have hwrite := write_background hok he hd buf nbytes.toNat rfl hstep.symm
        have hbase := (backgroundLoop_spec tty.screen.mem (tty.terminals t) buf nbytes.toNat).2
        subst hstep
        refine consoles_write hok rfl (fun t' _ => ?_) hwrite
        by_cases hne : t' = t
        · subst hne
          simp only [Tty.setTerminal, Function.update_self]
          exact hbase
        · simp only [Tty.setTerminal, Function.update_of_ne hne]

/-- Writes and switches always take place. -/
theorem console_enabled (tty : Tty) {e : TtyEvent} (he : e.IsConsole) :
    ∃ tty', ttyStep tty e = some tty' := by
  cases e with
  | key | read => exact absurd he (by simp [TtyEvent.IsConsole])
  | switch n => exact ⟨_, rfl⟩
  | write t buf nbytes => exact ⟨_, if_pos he⟩

/-- A run of the terminals is a run of the abstract consoles. -/
theorem consoles_exec {tty : Tty} {es : List TtyEvent} (hok : ConsolesOk tty)
    (hes : ∀ e ∈ es, e.IsConsole) :
    ∃ tty', exec ttyStep tty es = some tty' ∧
      consolesOf tty' = es.foldl Consoles.step (consolesOf tty) := by
  induction es generalizing tty with
  | nil => exact ⟨tty, rfl, rfl⟩
  | cons e es ih =>
    have he := hes e (List.mem_cons_self ..)
    obtain ⟨tty₁, hstep⟩ := console_enabled tty he
    obtain ⟨hok₁, habs⟩ := consoles_step hok he hstep
    obtain ⟨tty', hrun, hrest⟩ := ih hok₁ fun e' he' => hes e' (List.mem_cons_of_mem _ he')
    exact ⟨tty', (exec_cons_of_step hstep).trans hrun, by rw [hrest, habs, List.foldl_cons]⟩

/-! ## Independence -/

/-- A console only sees the writes to it. -/
theorem consoles_foldl_filter (c c' : Consoles) (es : List TtyEvent) (t : Fin 3)
    (h : c t = c' t) :
    es.foldl Consoles.step c t = (es.filter (TtyEvent.isWriteOf t)).foldl Consoles.step c' t := by
  induction es generalizing c c' with
  | nil => exact h
  | cons e es ih =>
    by_cases he : TtyEvent.isWriteOf t e = true
    · -- a write to `t` is drawn on both sides
      rw [List.filter_cons_of_pos he, List.foldl_cons, List.foldl_cons]
      refine ih _ _ ?_
      cases e with
      | key | switch | read => exact h
      | write t' buf nbytes =>
        cases buf with
        | none => exact h
        | some buf => simp only [Consoles.step, h]
    · -- any other event leaves console `t` alone, whatever it does to the others
      rw [List.filter_cons_of_neg he, List.foldl_cons]
      refine ih _ _ (Eq.trans ?_ h)
      cases e with
      | key | switch | read => rfl
      | write t' buf nbytes =>
        cases buf with
        | none => rfl
        | some buf =>
          have hne : (t : Nat) ≠ t' := fun heq => he (by simp [TtyEvent.isWriteOf, heq])
          simp only [Consoles.step, if_neg hne]

/-- `init_terminal` puts every cursor in the top left corner. -/
theorem logicalScreen_initTerminal (tty : Tty) {t : Nat} (ht : t < terminalTotalNum) :
    (logicalScreen (initTerminal tty) t).x = 0 ∧ (logicalScreen (initTerminal tty) t).y = 0 := by
  have hterm : (initTerminal tty).terminals t =
      freshTerminal t (terminalPage t) (tty.terminals t) := if_pos ht
  unfold logicalScreen
  split_ifs
  · exact ⟨rfl, rfl⟩
  · rw [hterm]
    exact ⟨rfl, rfl⟩

/-- It leaves three pages in order. -/
theorem consolesOk_initTerminal (tty : Tty) : ConsolesOk (initTerminal tty) where
  display := show 0 < terminalTotalNum by decide
  page t ht := by simp only [initTerminal, if_pos ht]; rfl
  cursor t ht := by
    have hzero := logicalScreen_initTerminal tty ht
    refine ⟨?_, ?_, ?_, ?_, fun h0 => absurd h0 (by decide)⟩ <;>
      simp [LogicalScreen.toScreen, hzero, numCols, numRows]

private theorem terminalWrite_display (tty : Tty) (t : Nat) (buf : Option Buffer) (n : Int) :
    (terminalWrite tty t buf n).2.curDisplayTid = tty.curDisplayTid := by
  cases buf with
  | none => rfl
  | some buf =>
    unfold terminalWrite
    dsimp only
    split_ifs <;> rfl

/-- Writes leave the display where it is. -/
private theorem exec_writes_display {tty tty' : Tty} {es : List TtyEvent} {t : Nat}
    (hes : ∀ e ∈ es, e.isWriteOf t = true) (hrun : exec ttyStep tty es = some tty') :
    tty'.curDisplayTid = tty.curDisplayTid := by
  refine exec_invariant_of_eachStep (I := fun s => s.curDisplayTid = tty.curDisplayTid)
    (fun s e s' hs he hstep => ?_) rfl (eachStep_of_forall hes) hrun
  cases e with
  | key | switch | read => exact absurd he (by simp [TtyEvent.isWriteOf])
  | write t' buf n =>
    simp only [ttyStep] at hstep
    split_ifs at hstep
    obtain rfl := Option.some.inj hstep
    rw [terminalWrite_display, hs]

/-- **Independent consoles**: under any interleaving of writes by processes of the three
    terminals and of switches, the logical screen of a terminal is the one that its own
    writes produce while it is displayed all the time. -/
theorem consoles_independent (tty : Tty) (es : List TtyEvent) (hes : ∀ e ∈ es, e.IsConsole)
    (t : Fin 3) :
    ∃ mixed alone,
      exec ttyStep (initTerminal tty) es = some mixed ∧
      exec ttyStep (terminalSwitch (initTerminal tty) (t : Nat)).2
        (es.filter (TtyEvent.isWriteOf t)) = some alone ∧
      alone.curDisplayTid = (t : Nat) ∧
      logicalScreen mixed t = logicalScreen alone t := by
  have hinit := consolesOk_initTerminal tty
  have hshown : (terminalSwitch (initTerminal tty) (t : Nat)).2.curDisplayTid = (t : Nat) := by
    have ht := t.isLt
    unfold terminalSwitch
    split_ifs with hrange hsame
    · simp only [terminalMaxNum] at hrange; omega
    · exact (Int.ofNat.inj hsame).symm
    · rfl
  -- the display is switched to `t` once, before the writes
  obtain ⟨hok, hstart⟩ := consoles_step (e := .switch (t : Nat)) hinit trivial rfl
  obtain ⟨mixed, hmixed, hmixedAbs⟩ := consoles_exec hinit hes
  have hwrites : ∀ e ∈ es.filter (TtyEvent.isWriteOf t), e.IsConsole :=
    fun e he => hes e (List.mem_filter.mp he).1
  obtain ⟨alone, halone, haloneAbs⟩ := consoles_exec hok hwrites
  refine ⟨mixed, alone, hmixed, halone, ?_, ?_⟩
  · rw [exec_writes_display (fun e he => (List.mem_filter.mp he).2) halone, hshown]
  · calc logicalScreen mixed t = es.foldl Consoles.step (consolesOf (initTerminal tty)) t :=
          congrFun hmixedAbs t
      _ = (es.filter (TtyEvent.isWriteOf t)).foldl Consoles.step
            (consolesOf (terminalSwitch (initTerminal tty) (t : Nat)).2) t :=
          consoles_foldl_filter _ _ es t (congrFun hstart.symm t)
      _ = logicalScreen alone t := (congrFun haloneAbs t).symm

/-- Terminal 1 writes in the background, is switched to and writes again. -/
theorem consoles_independent_two_writers :
    ∃ mixed alone,
      exec ttyStep (initTerminal zeroTty)
        [.write 0 (some fun _ => 65) 3, .write 1 (some fun _ => 66) 100, .switch 1,
          .write 1 (some fun _ => 10) 30, .write 0 (some fun _ => 8) 1] = some mixed ∧
      exec ttyStep (terminalSwitch (initTerminal zeroTty) 1).2
        [.write 1 (some fun _ => 66) 100, .write 1 (some fun _ => 10) 30] = some alone ∧
      alone.curDisplayTid = 1 ∧ logicalScreen mixed 1 = logicalScreen alone 1 :=
  consoles_independent zeroTty
    [.write 0 (some fun _ => 65) 3, .write 1 (some fun _ => 66) 100, .switch 1,
      .write 1 (some fun _ => 10) 30, .write 0 (some fun _ => 8) 1]
    (by simp [TtyEvent.IsConsole, terminalTotalNum]) 1

end LinuxLikeOs
