/-
# `RealBoy.Emu.Joypad` — keys and the input matrix

`monitor_set_key` folds twelve keys into eight flags, one for each button of the
machine; a read of 0xff00 puts four of the flags on its lines, selected by the
last value written there.  `LinePressed` says what the lines are for: a line
is low if a button at it is selected and one of the button's keys is held.

The flags hold less than that.  Four buttons have two keys each, and the flag
follows the key that spoke last: to let one go is to let both go.  And where both
groups are selected only the directions are read.  A low line is never wrong; a
high one is where a key is held that only these two would have shown
(`readLine_iff`).
-/
import RealBoy.Emu.Run
import RealBoy.Emu.Write
import RealBoy.Lib.Latest

namespace RealBoy

open Emu
open History (latest latest_concat_none latest_concat_some exists_latest)

/-! ## `monitor_set_key` -/

/-- `ev->code`: the codes of the `switch` by name, and any other. -/
inductive KeyCode where
  | enter
  | down
  | j
  | space
  | up
  | k
  | s
  | left
  | h
  | d
  | right
  | l
  | other (code : U16)
deriving DecidableEq

/-- `struct input_event`; the value is 0 for a release, 1 for a press and 2 for
a repeat. -/
structure InputEvent where
  code : KeyCode
  value : Int
deriving DecidableEq

/-- `monitor_set_key`; `isFocus` is what the display backend says. -/
def monitorSetKey (isFocus : Bool) (ev : InputEvent) (s : Emu) : Emu :=
  if isFocus then
    let released := decide (ev.value = 0)
    match ev.code with
    | .enter => { s with keys := { s.keys with startReleased := released } }
    | .down | .j => { s with keys := { s.keys with downReleased := released } }
    | .space => { s with keys := { s.keys with selectReleased := released } }
    | .up | .k => { s with keys := { s.keys with upReleased := released } }
    | .s => { s with keys := { s.keys with bReleased := released } }
    | .left | .h => { s with keys := { s.keys with leftReleased := released } }
    | .d => { s with keys := { s.keys with aReleased := released } }
    | .right | .l => { s with keys := { s.keys with rightReleased := released } }
    | .other _ => s
  else s

/-- What can happen to the matrix: a key event while the display is focused, a
write to 0xff00. -/
inductive Input where
  | key (ev : InputEvent)
  | select (v : U8)
deriving DecidableEq

def Emu.input (s : Emu) : Input → Emu
  | .key ev => monitorSetKey true ev s
  | .select v => monitorWrMem 0xff00 v s

/-- The state after these inputs. -/
def Emu.inputs (s : Emu) (ins : List Input) : Emu := Runs.run Emu.input s ins

/-! ## What the lines are for -/

/-- The buttons of the machine. -/
inductive Button where
  | right
  | left
  | up
  | down
  | a
  | b
  | select
  | start
deriving DecidableEq

/-- The keys mapped to a button. -/
def Button.keys : Button → List KeyCode
  | .right => [.right, .l]
  | .left => [.left, .h]
  | .up => [.up, .k]
  | .down => [.down, .j]
  | .a => [.d]
  | .b => [.s]
  | .select => [.space]
  | .start => [.enter]

/-- The direction at a line. -/
def directionAt : Fin 4 → Button
  | 0 => .right
  | 1 => .left
  | 2 => .up
  | 3 => .down

/-- The other button at a line. -/
def actionAt : Fin 4 → Button
  | 0 => .a
  | 1 => .b
  | 2 => .select
  | 3 => .start

/-- What an input says of a key. -/
def keyValue (code : KeyCode) : Input → Option Int
  | .key ev => if ev.code = code then some ev.value else none
  | .select _ => none

/-- What an input selects. -/
def selectValue : Input → Option U8
  | .key _ => none
  | .select v => some v

/-- The key is held: the last event of it is no release. -/
def Held (ins : List Input) (code : KeyCode) : Prop :=
  ∃ v, latest (keyValue code) ins = some v ∧ v ≠ 0

/-- A key of the button is held. -/
def Pressed (ins : List Input) (button : Button) : Prop := ∃ code ∈ button.keys, Held ins code

/-- The value that selects: the last one written, 0 at power-on. -/
def selected (ins : List Input) : U8 := (latest selectValue ins).getD 0

/-- A selected button at the line is pressed. -/
def LinePressed (ins : List Input) (i : Fin 4) : Prop :=
  (bit (selected ins) 0x10 = false ∧ Pressed ins (directionAt i)) ∨
    (bit (selected ins) 0x20 = false ∧ Pressed ins (actionAt i))

/-! ## What the flags hold -/

/-- What an input says of a button. -/
def buttonValue (button : Button) : Input → Option Int
  | .key ev => if ev.code ∈ button.keys then some ev.value else none
  | .select _ => none

/-- The last event of the button's keys is no release. -/
def LastPressed (ins : List Input) (button : Button) : Prop :=
  ∃ v, latest (buttonValue button) ins = some v ∧ v ≠ 0

/-- The button's flag. -/
def Keys.released (k : Keys) : Button → Bool
  | .right => k.rightReleased
  | .left => k.leftReleased
  | .up => k.upReleased
  | .down => k.downReleased
  | .a => k.aReleased
  | .b => k.bReleased
  | .select => k.selectReleased
  | .start => k.startReleased

/-- Of the buttons, a key event concerns those that have the key. -/
theorem monitorSetKey_released (ev : InputEvent) (s : Emu) (button : Button) :
    (monitorSetKey true ev s).keys.released button =
      if ev.code ∈ button.keys then decide (ev.value = 0) else s.keys.released button := by
  rw [monitorSetKey, if_pos rfl]
  cases ev.code <;> cases button <;> rfl

theorem monitorSetKey_tmpIoregs (ev : InputEvent) (s : Emu) :
    (monitorSetKey true ev s).tmpIoregs = s.tmpIoregs := by
  rw [monitorSetKey, if_pos rfl]
  cases ev.code <;> rfl

/-- A write to 0xff00 keeps two bits, and nothing else changes. -/
theorem monitorWrMem_joypad (v : U8) (s : Emu) :
    monitorWrMem 0xff00 v s =
      { s.log (.monitorWrMem 0xff00 v) with
        tmpIoregs := Function.update s.tmpIoregs 0xff00 (v &&& 0x30) } := by
  rw [monitorWrMem_eq, monitorWrMemWith]
  rfl

/-- The state after some inputs. -/
structure Matrix (ins : List Input) (s : Emu) : Prop where
  select : s.tmpIoregs 0xff00 = selected ins &&& 0x30
  released : ∀ button, s.keys.released button = false ↔ LastPressed ins button

theorem matrix_powerOn (rom boot : Array U8) : Matrix [] (powerOn rom boot) where
  select := rfl
  released button := by
    constructor
    · cases button <;> exact nofun
    · rintro ⟨v, hv, -⟩
      cases hv

/-- **One input.** -/
theorem Matrix.input {ins : List Input} {s : Emu} (h : Matrix ins s) (i : Input) :
    Matrix (ins ++ [i]) (s.input i) := by
  cases i with
  | select v =>
      have hs : s.input (.select v) = monitorWrMem 0xff00 v s := rfl
      rw [hs, monitorWrMem_joypad]
      refine ⟨?_, fun button => ?_⟩
      · have hv : selected (ins ++ [.select v]) = v := by
          have hsays : selectValue (.select v) = some v := rfl
          simp [selected, latest_concat_some hsays]
        rw [hv]
        show Function.update s.tmpIoregs 0xff00 (v &&& 0x30) 0xff00 = _
        simp
      · rw [LastPressed, latest_concat_none rfl]
        exact h.released button
  | key ev =>
      have hs : s.input (.key ev) = monitorSetKey true ev s := rfl
      rw [hs]
      refine ⟨?_, fun button => ?_⟩
      · rw [monitorSetKey_tmpIoregs, h.select, selected, selected, latest_concat_none rfl]
      · rw [monitorSetKey_released, LastPressed]
        by_cases hk : ev.code ∈ button.keys
        · have hsays : buttonValue button (.key ev) = some ev.value := if_pos hk
          simp [hk, latest_concat_some hsays]
        · have hsays : buttonValue button (.key ev) = none := if_neg hk
          rw [if_neg hk, latest_concat_none hsays]
          exact h.released button

/-- **Any sequence of inputs.** -/
theorem matrix_inputs (rom boot : Array U8) (ins : List Input) :
    Matrix ins ((powerOn rom boot).inputs ins) := by
  induction ins using List.reverseRecOn with
  | nil => exact matrix_powerOn rom boot
  | append_singleton ins i ih =>
      rw [Emu.inputs, Runs.run_append]
      exact ih.input i

/-! ## A read of 0xff00 -/

/-- Four flags at their lines, under two selecting bits. -/
theorem keyLines_getLsbD (v : U8) (r₃ r₂ r₁ r₀ : Bool) (i : Fin 4) :
    (v &&& 0x30 ||| (keyLine r₃ 3 ||| keyLine r₂ 2 ||| keyLine r₁ 1 ||| keyLine r₀ 0)).getLsbD i =
      match i with
      | 0 => r₀
      | 1 => r₁
      | 2 => r₂
      | 3 => r₃ := by
  have hhigh : (0x30 : U8).getLsbD i = false := by
    revert i
    decide
  rw [BitVec.getLsbD_or, BitVec.getLsbD_and, hhigh, Bool.and_false, Bool.false_or]
  revert i r₃ r₂ r₁ r₀
  decide

theorem selects_none_iff (v : U8) :
    v &&& 0x30 &&& 0x30 = 0x30 ↔ bit v 0x10 = true ∧ bit v 0x20 = true := by
  revert v
  decide +kernel

/-- **A line.**  The directions are read where they are selected, the others
where only they are. -/
theorem Matrix.line {ins : List Input} {s : Emu} (h : Matrix ins s) (i : Fin 4) :
    (monitorRdMem s 0xff00).getLsbD i =
      if bit (selected ins) 0x10 then
        (if bit (selected ins) 0x20 then true else s.keys.released (actionAt i))
      else s.keys.released (directionAt i) := by
  have hread : monitorRdMem s 0xff00 = rdJoypad s := rfl
  have hbit : bit (selected ins &&& 0x30) 0x10 = bit (selected ins) 0x10 := by
    rw [bit, BitVec.and_assoc]
    rfl
  rw [hread, rdJoypad, h.select, hbit, if_congr (selects_none_iff (selected ins)) rfl rfl]
  cases bit (selected ins) 0x10 with
  | false =>
      simp only [Bool.false_eq_true, false_and, if_false]
      rw [keyLines_getLsbD]
      match i with
      | 0 | 1 | 2 | 3 => rfl
  | true =>
      cases bit (selected ins) 0x20 with
      | true =>
          simp only [and_self, if_true]
          revert i
          decide
      | false =>
          simp only [Bool.false_eq_true, and_false, if_false, if_true]
          rw [keyLines_getLsbD]
          match i with
          | 0 | 1 | 2 | 3 => rfl

/-- The key that spoke last is held, if it did not say that it is let go. -/
theorem LastPressed.pressed {ins : List Input} {button : Button} (h : LastPressed ins button) :
    Pressed ins button := by
  obtain ⟨v, hv, hne⟩ := h
  have hkey : ∃ code ∈ button.keys, latest (keyValue code) ins = some v := by
    refine exists_latest ?_ ?_ hv
    · intro code hcode inp hnone
      cases inp with
      | select v => rfl
      | key ev =>
          refine if_neg fun he => ?_
          rw [buttonValue, he, if_pos hcode] at hnone
          cases hnone
    · intro inp v hsome
      cases inp with
      | select v => cases hsome
      | key ev =>
          by_cases hmem : ev.code ∈ button.keys
          · rw [buttonValue, if_pos hmem] at hsome
            exact ⟨ev.code, hmem, (if_pos rfl).trans hsome⟩
          · rw [buttonValue, if_neg hmem] at hsome
            cases hsome
  obtain ⟨code, hcode, hlatest⟩ := hkey
  exact ⟨code, hcode, v, hlatest, hne⟩

/-- A button with one key has a flag of its own. -/
theorem pressed_iff_of_single {button : Button} (code : KeyCode) (h : button.keys = [code])
    (ins : List Input) : Pressed ins button ↔ LastPressed ins button := by
  have hsame : buttonValue button = keyValue code := by
    funext inp
    cases inp with
    | select v => rfl
    | key ev => simp [buttonValue, keyValue, h]
  simp [Pressed, LastPressed, Held, h, hsame]

theorem pressed_actionAt (ins : List Input) (i : Fin 4) :
    Pressed ins (actionAt i) ↔ LastPressed ins (actionAt i) := by
  match i with
  | 0 => exact pressed_iff_of_single .d rfl ins
  | 1 => exact pressed_iff_of_single .s rfl ins
  | 2 => exact pressed_iff_of_single .space rfl ins
  | 3 => exact pressed_iff_of_single .enter rfl ins

/-- A press that the line does not show: the directions are selected, the last
event of the line's direction is a release, or there is none; and another key
of the direction is held, or the line's other button is selected and held. -/
def HiddenPress (ins : List Input) (i : Fin 4) : Prop :=
  bit (selected ins) 0x10 = false ∧ ¬ LastPressed ins (directionAt i) ∧
    (Pressed ins (directionAt i) ∨ (bit (selected ins) 0x20 = false ∧ Pressed ins (actionAt i)))

/-- **The input matrix.**  After any key events and any writes to 0xff00, a line
reads low where a selected button is pressed, the hidden presses apart. -/
theorem readLine_iff (rom boot : Array U8) (ins : List Input) (i : Fin 4) :
    ((monitorRdMem ((powerOn rom boot).inputs ins) 0xff00).getLsbD i = false ↔ LinePressed ins i) ↔
      ¬ HiddenPress ins i := by
  have h := matrix_inputs rom boot ins
  have hdir := h.released (directionAt i)
  have hact := (h.released (actionAt i)).trans (pressed_actionAt ins i).symm
  have himp : LastPressed ins (directionAt i) → Pressed ins (directionAt i) := LastPressed.pressed
  rw [h.line i, LinePressed, HiddenPress]
  cases bit (selected ins) 0x10 with
  | false =>
      rw [if_neg (by decide), hdir]
      constructor
      · rintro hline ⟨-, hno, hheld⟩
        exact hno (hline.mpr (hheld.imp_left fun hp => ⟨rfl, hp⟩))
      · intro hnone
        refine ⟨fun hlast => .inl ⟨rfl, himp hlast⟩, fun hheld => ?_⟩
        by_contra hno
        exact hnone ⟨rfl, hno, hheld.imp_left And.right⟩
  | true =>
      cases bit (selected ins) 0x20 with
      | false =>
          rw [if_pos rfl, if_neg (by decide), hact]
          simp
      | true => simp

/-- DOWN and J are pressed, J is let go: DOWN is held, and line 3 is high. -/
theorem not_readLine_down :
    ¬ ∀ (rom boot : Array U8) (ins : List Input) (i : Fin 4),
      (monitorRdMem ((powerOn rom boot).inputs ins) 0xff00).getLsbD i = false ↔ LinePressed ins i := by
  intro h
  have hdown : LinePressed [.select 0x20, .key ⟨.down, 1⟩, .key ⟨.j, 1⟩, .key ⟨.j, 0⟩] 3 :=
    .inl ⟨by decide, .down, by decide, 1, by decide, by decide⟩
  have hlow := (h #[] #[] _ 3).mpr hdown
  exact absurd hlow (by decide +kernel)

end RealBoy
