import Mathlib.Data.List.Induction
import Sharp.Diagnostic.Basic

/-!
Calls in a traceback. The place where a frame is shown is kept by the frame it called: the error is
where the innermost frame stands, and every entry is the place of the next frame outwards. Nobody
reads the entry of the last frame. In a chain that was entered call by call no place is missing, so
every frame has its line, at the place where it made its call.
-/
namespace Sharp

namespace Context

/-- Where the frames are shown, innermost first; the entry of each one is the place of the next. -/
def places (first : Option Position) (frames : List Frame) : List (Option Position) :=
  first :: (frames.map Frame.entry).dropLast

theorem places_cons (first : Option Position) (f g : Frame) (rest : List Frame) :
    places first (f :: g :: rest) = first :: places f.entry (g :: rest) := rfl

theorem frameLines_eq (first : Option Position) (frames : List Frame) :
    frameLines first frames = ((frames.map Frame.name).zip (places first frames)).filterMap
      fun (name, place) => place.map (frameLine name) := by
  induction frames generalizing first with
  | nil => rfl
  | cons f rest ih =>
    cases rest with
    | nil => cases first <;> rfl
    | cons g rest =>
      rw [places_cons, List.map_cons, List.zip_cons_cons]
      cases first with
      | none => exact ih f.entry
      | some place => exact congrArg (frameLine f.name place :: ·) (ih f.entry)

/-- The chain after some calls, the first one first: who was called, and from where. -/
def called (main : String) (calls : List (String × Position)) : Context :=
  calls.foldl (fun caller call => enter call.1 caller call.2) (top main)

variable (main : String) (calls : List (String × Position))

theorem called_concat (call : String × Position) :
    called main (calls ++ [call]) = enter call.1 (called main calls) call.2 := by
  rw [called, List.foldl_append]
  rfl

theorem names_called :
    (called main calls).frames.map Frame.name = (main :: calls.map Prod.fst).reverse := by
  induction calls using List.reverseRecOn with
  | nil => rfl
  | append_singleton calls call ih =>
    rw [called_concat, List.map_append, ← List.cons_append, List.reverse_append, ← ih]
    rfl

/-- The frame that was there first has not been entered from anywhere. -/
theorem places_called (raised : Position) : places (some raised) (called main calls).frames =
    ((calls.map Prod.snd ++ [raised]).map some).reverse := by
  induction calls using List.reverseRecOn generalizing raised with
  | nil => rfl
  | append_singleton calls call ih =>
    have inside : places (some raised) (called main (calls ++ [call])).frames =
        some raised :: places (some call.2) (called main calls).frames := by
      rw [called_concat]
      rfl
    rw [inside, ih]
    simp

theorem lines_called (raised : Position) :
    (frameLines (some raised) (called main calls).frames).reverse =
      List.zipWith frameLine (main :: calls.map Prod.fst) (calls.map Prod.snd ++ [raised]) := by
  have together : (main :: calls.map Prod.fst).length =
      ((calls.map Prod.snd ++ [raised]).map some).length := by simp
  -- No place is missing, so no pair of a name and a place is left out.
  have shown : (fun (name, place) => Option.map (frameLine name) place) ∘ Prod.map id some =
      some ∘ Function.uncurry frameLine := rfl
  rw [frameLines_eq, names_called, places_called, List.zip, ← List.reverse_zipWith together,
    ← List.filterMap_reverse, List.reverse_reverse, ← List.zip, List.zip_map_right,
    List.filterMap_map, shown, List.filterMap_eq_map, List.map_uncurry_zip_eq_zipWith]

end Context

open Context

/-- One line for every frame whose place is known, outermost first; the entry of the last frame does
    not matter. A chain that was entered call by call has a line for each of its frames. -/
theorem traceback_pairs_frames (details : String) (span : Span) (c : Context) :
    let traceback (c : Context) : String := (Diagnostic.mk (.runtime c) details span).traceback
    let line (name : String) (place : Position) : String :=
      s!"  File {place.file}, line {place.line + 1}, in {name}\n"
    let lines : List String :=
      ((c.frames.map Frame.name).zip (places (some span.start) c.frames)).reverse.filterMap
        fun (name, place) => place.map (line name)
    traceback c = "Traceback (most recent call last):\n" ++ String.join lines ∧
      (∀ other : Context, other.frames.map Frame.name = c.frames.map Frame.name →
        (other.frames.map Frame.entry).dropLast = (c.frames.map Frame.entry).dropLast →
        traceback other = traceback c) ∧
      ∀ main calls, c = called main calls →
        c.frames.length = calls.length + 1 ∧ lines.length = calls.length + 1 ∧
        lines = List.zipWith line (main :: calls.map Prod.fst)
          (calls.map Prod.snd ++ [span.start]) := by
  intro traceback line lines
  have lines_eq : (frameLines (some span.start) c.frames).reverse = lines := by
    rw [frameLines_eq, ← List.filterMap_reverse]
    rfl
  refine ⟨lines_eq ▸ rfl, fun other names entries => ?_, fun main calls entered => ?_⟩
  · have same : frameLines (some span.start) other.frames =
        frameLines (some span.start) c.frames := by
      rw [frameLines_eq, frameLines_eq, places, places, names, entries]
    exact congrArg (fun lines : List String =>
      "Traceback (most recent call last):\n" ++ String.join lines.reverse) same
  · have shown : lines = List.zipWith line (main :: calls.map Prod.fst)
        (calls.map Prod.snd ++ [span.start]) := by
      rw [← lines_eq, entered]
      exact lines_called main calls span.start
    have names := congrArg List.length (names_called main calls)
    refine ⟨by simpa [entered] using names, ?_, shown⟩
    simp [shown]

/-- A frame in the middle of the chain without a place, and an entry that nobody reads. -/
theorem traceback_pairs_frames_gap :
    let source : Source := ⟨"<test>", "FUN f()\n  1/0\nEND\nf()"⟩
    let span : Span := ⟨.atIndex source 10, .atIndex source 13⟩
    let call : Position := .atIndex source 18
    let c : Context := ⟨⟨"g", none⟩, [⟨"f", some call⟩, ⟨"<program>", some span.start⟩]⟩
    let other : Context := ⟨⟨"g", none⟩, [⟨"f", some call⟩, ⟨"<program>", none⟩]⟩
    let whole : Context := called "<program>" [("f", call)]
    let traceback (c : Context) : String :=
      (Diagnostic.mk (.runtime c) "Division by zero" span).traceback
    traceback c = "Traceback (most recent call last):\n  File <test>, line 4, in <program>\n" ++
        "  File <test>, line 2, in g\n" ∧
      other.frames.map Frame.name = c.frames.map Frame.name ∧
      (other.frames.map Frame.entry).dropLast = (c.frames.map Frame.entry).dropLast ∧
      traceback other = traceback c ∧
      traceback whole = "Traceback (most recent call last):\n" ++
        "  File <test>, line 4, in <program>\n  File <test>, line 2, in f\n" := by
  intro source span call c other whole traceback
  obtain ⟨lines, ignored, _⟩ := traceback_pairs_frames "Division by zero" span c
  obtain ⟨linesWhole, _, each⟩ := traceback_pairs_frames "Division by zero" span whole
  obtain ⟨_, _, shown⟩ := each "<program>" [("f", call)] rfl
  refine ⟨lines.trans (by decide +kernel), rfl, rfl, ignored other rfl rfl, ?_⟩
  rw [show traceback whole = _ from linesWhole, shown]
  decide +kernel

end Sharp
