import Tablature.Proofs.PostScript.Items

/-!
# Programs draw their drawings

The machine that carries out the program of a drawing draws that drawing, but for
what is lost in writing it down. So the drawing can be read off its program.

* `printed`: a command as far as it is written down;
* `run_commandItems`: the items of a command draw it and nothing else;
* `decode?_program`: a program is decoded to its drawing.
-/

namespace Tablature.PostScript

/-- A command as far as it is written down: numbers in thousandths, texts with their escapes,
and the font that a face names. A surface has no line width. -/
def printed : Command Float → Command Int
  | .line x₁ y₁ x₂ y₂ width =>
    .line (inThousandths x₁) (inThousandths y₁) (inThousandths x₂) (inThousandths y₂)
      (inThousandths width)
  | .arc x y radius start stop clockwise filled width =>
    .arc (inThousandths x) (inThousandths y) (inThousandths radius) (inThousandths start)
      (inThousandths stop) clockwise filled (if filled then 0 else inThousandths width)
  | .curve x₁ y₁ x₂ y₂ x₃ y₃ width =>
    .curve (inThousandths x₁) (inThousandths y₁) (inThousandths x₂) (inThousandths y₂)
      (inThousandths x₃) (inThousandths y₃) (inThousandths width)
  | .text text x y size face align =>
    .text (String.ofList (escape text.toList)) (inThousandths x) (inThousandths y)
      (inThousandths size) (baseFace face) align
  | .colour red green blue =>
    .colour (inThousandths red) (inThousandths green) (inThousandths blue)
  | .pageBreak => .pageBreak

namespace Machine

theorem run_append {m m' : Machine} {is : List Item} (h : m.run is = some m') (js : List Item) :
    m.run (is ++ js) = m'.run js := by
  unfold run at h ⊢
  rw [List.foldlM_append, h]
  rfl

/-- Nothing is left to be done: no operand is waiting, no procedure open and no path begun. -/
structure Idle (m : Machine) : Prop where
  stack : m.stack = []
  depth : m.depth = 0
  path : m.path = []

/-! ## Parts of commands -/

variable (point : Option Point) (path : List Segment) (font : Option (String × Int))
  (lineWidth : Int) (drawn : List (Command Int))

/-- A path is drawn with a line of the width that is written. -/
theorem run_strokeItems (width : Float) :
    run ⟨[], 0, point, path, font, lineWidth, drawn⟩ (strokeItems width) =
      some ⟨[], 0, none, [], font, inThousandths width,
        drawn ++ path.map (Segment.stroked (inThousandths width))⟩ := rfl

/-- The face of a font is that of its copy. -/
theorem baseFace_latinFace (face : String) : baseFace (latinFace face) = baseFace face :=
  baseFace_append (baseFace face)

theorem run_selectFontItems (face : String) (size : Float) :
    run ⟨[], 0, point, path, font, lineWidth, drawn⟩ (selectFontItems face size) =
      some ⟨[], 0, point, path, some (baseFace face, inThousandths size), lineWidth, drawn⟩ := by
  have e : run ⟨[], 0, point, path, font, lineWidth, drawn⟩ (selectFontItems face size) =
      some ⟨[], 0, point, path,
        some (baseFace (String.ofList (latinFace face).toList), inThousandths size), lineWidth,
        drawn⟩ := rfl
  rw [e, String.ofList_toList, baseFace_latinFace]

/-- A text is drawn as it stands to the point. -/
theorem run_showText {m : Machine} {is : List Item} {p : Point} {body : List Char}
    {align : Align} {face : String} {size : Int} (h : m.run is =
      some ⟨[.string body], 0, some p, [], some (face, size), lineWidth, drawn⟩)
    (halign : p.align? body = some align) :
    m.run (is ++ [onPage .showText]) = some ⟨[], 0, none, [], some (face, size), lineWidth,
      drawn ++ [.text (String.ofList body) p.x p.y size face align]⟩ := by
  rw [run_append h]
  simp [run, exec, onPage, paint, halign]

/-- How a text stands to its point is seen from how far the point is moved to the left. -/
theorem run_showTextItems (text : String) (x y : Float) (align : Align) (face : String)
    (size : Int) :
    run ⟨[], 0, point, [], some (face, size), lineWidth, drawn⟩ (showTextItems text x y align) =
      some ⟨[], 0, none, [], some (face, size), lineWidth,
        drawn ++ [.text (String.ofList (escape text.toList)) (inThousandths x) (inThousandths y)
          size face align]⟩ := by
  generalize hbody : escape text.toList = body
  cases align with
  | left =>
    have h : run ⟨[], 0, point, [], some (face, size), lineWidth, drawn⟩
        [onPage .newPath, num x, num y, onPage .moveTo, .string body] =
        some ⟨[.string body], 0, some ⟨inThousandths x, inThousandths y, 0, []⟩, [],
          some (face, size), lineWidth, drawn⟩ := rfl
    rw [showTextItems, hbody]
    exact run_showText _ _ h rfl
  | centre =>
    have htwo : num 2.0 = .number 2000 := by decide +kernel
    have hzero : num 0.0 = .number 0 := by decide +kernel
    have h : run ⟨[], 0, point, [], some (face, size), lineWidth, drawn⟩
        [num x, num y, onPage .moveTo, .string body, onStack .dup, onStack .stringWidth,
          onStack .pop, .number 2000, onStack .div, onStack .neg, .number 0, onPage .moveBy] =
        some ⟨[.string body], 0, some ⟨inThousandths x + 0, inThousandths y + 0, -1, body⟩, [],
          some (face, size), lineWidth, drawn⟩ := rfl
    rw [Int.add_zero, Int.add_zero] at h
    rw [showTextItems, hbody, htwo, hzero]
    exact run_showText _ _ h (by simp [Point.align?])
  | right =>
    have h : run ⟨[], 0, point, [], some (face, size), lineWidth, drawn⟩
        [num x, .string body, onStack .stringWidth, onStack .pop, onStack .sub, num y,
          onPage .moveTo, .string body] =
        some ⟨[.string body], 0, some ⟨inThousandths x - 0, inThousandths y, -2, body⟩, [],
          some (face, size), lineWidth, drawn⟩ := rfl
    rw [Int.sub_zero] at h
    rw [showTextItems, hbody]
    exact run_showText _ _ h (by simp [Point.align?])

/-! ## Commands -/

/-- The items of a command draw it, and leave nothing to be done. -/
theorem run_commandItems {m : Machine} (h : m.Idle) (c : Command Float) :
    ∃ m', m.run (commandItems c) = some m' ∧ m'.Idle ∧ m'.drawn = m.drawn ++ [printed c] := by
  obtain ⟨stack, depth, point, path, font, lineWidth, drawn⟩ := m
  obtain ⟨rfl, rfl, rfl⟩ := h
  cases c with
  | line x₁ y₁ x₂ y₂ width =>
    have h : run ⟨[], 0, point, [], font, lineWidth, drawn⟩
        [onPage .newPath, num x₁, num y₁, onPage .moveTo, num x₂, num y₂, onPage .lineTo] =
        some ⟨[], 0, some ⟨inThousandths x₂, inThousandths y₂, 0, []⟩,
          [.line (inThousandths x₁) (inThousandths y₁) (inThousandths x₂) (inThousandths y₂)],
          font, lineWidth, drawn⟩ := rfl
    exact ⟨_, (run_append h _).trans (run_strokeItems ..), ⟨rfl, rfl, rfl⟩, rfl⟩
  | arc x y radius start stop clockwise filled width =>
    have h : run ⟨[], 0, point, [], font, lineWidth, drawn⟩
        [onPage .newPath, num x, num y, num radius, num start, num stop,
          onPage (.arc clockwise)] =
        some ⟨[], 0, none,
          [.arc (inThousandths x) (inThousandths y) (inThousandths radius) (inThousandths start)
            (inThousandths stop) clockwise],
          font, lineWidth, drawn⟩ := rfl
    cases filled with
    | true =>
      exact ⟨⟨[], 0, none, [], font, lineWidth, _⟩, run_append h _, ⟨rfl, rfl, rfl⟩, rfl⟩
    | false => exact ⟨_, (run_append h _).trans (run_strokeItems ..), ⟨rfl, rfl, rfl⟩, rfl⟩
  | curve x₁ y₁ x₂ y₂ x₃ y₃ width =>
    have hpoints : run ⟨[], 0, point, [], font, lineWidth, drawn⟩
        [onPage .newPath, num x₁, num y₁, onPage .moveTo, num x₁, num y₁, num x₂, num y₂, num x₃,
          num y₃] =
        some ⟨[.number (inThousandths y₃), .number (inThousandths x₃), .number (inThousandths y₂),
          .number (inThousandths x₂), .number (inThousandths y₁), .number (inThousandths x₁)], 0,
          some ⟨inThousandths x₁, inThousandths y₁, 0, []⟩, [], font, lineWidth, drawn⟩ := rfl
    -- The curve begins at the point that it is first drawn towards.
    have h : run ⟨[], 0, point, [], font, lineWidth, drawn⟩
        ([onPage .newPath, num x₁, num y₁, onPage .moveTo, num x₁, num y₁, num x₂, num y₂, num x₃,
          num y₃] ++ [onPage .curveTo]) =
        some ⟨[], 0, some ⟨inThousandths x₃, inThousandths y₃, 0, []⟩,
          [.curve (inThousandths x₁) (inThousandths y₁) (inThousandths x₂) (inThousandths y₂)
            (inThousandths x₃) (inThousandths y₃)],
          font, lineWidth, drawn⟩ := by
      rw [run_append hpoints]
      simp [run, exec, onPage, paint]
    exact ⟨_, (run_append h _).trans (run_strokeItems ..), ⟨rfl, rfl, rfl⟩, rfl⟩
  | text text x y size face align =>
    exact ⟨_, (run_append (run_selectFontItems ..) _).trans (run_showTextItems ..),
      ⟨rfl, rfl, rfl⟩, rfl⟩
  | colour red green blue =>
    exact ⟨⟨[], 0, point, [], font, lineWidth, _⟩, rfl, ⟨rfl, rfl, rfl⟩, rfl⟩
  | pageBreak => exact ⟨⟨[], 0, point, [], font, lineWidth, _⟩, rfl, ⟨rfl, rfl, rfl⟩, rfl⟩

theorem run_commands {m : Machine} (h : m.Idle) (commands : List (Command Float)) :
    ∃ m', m.run (commands.flatMap commandItems) = some m' ∧ m'.Idle ∧
      m'.drawn = m.drawn ++ commands.map printed := by
  induction commands generalizing m with
  | nil => exact ⟨m, rfl, h, (List.append_nil _).symm⟩
  | cons c commands ih =>
    obtain ⟨m₁, hm₁, h₁, hd₁⟩ := run_commandItems h c
    obtain ⟨m₂, hm₂, h₂, hd₂⟩ := ih h₁
    refine ⟨m₂, ?_, h₂, ?_⟩
    · rw [List.flatMap_cons, run_append hm₁, hm₂]
    · rw [hd₂, hd₁, List.append_assoc]
      rfl

/-! ## Fonts -/

/-- The definition of a font draws nothing. -/
theorem run_fontItems {m : Machine} (h : m.Idle) (face : String) :
    m.run (fontItems face) = some m := by
  obtain ⟨stack, depth, point, path, font, lineWidth, drawn⟩ := m
  obtain ⟨rfl, rfl, rfl⟩ := h
  rfl

theorem run_fonts {m : Machine} (h : m.Idle) (fs : List String) :
    m.run (fs.flatMap fontItems) = some m := by
  induction fs with
  | nil => rfl
  | cons f fs ih => rw [List.flatMap_cons, run_append (run_fontItems h f), ih]

end Machine

/-! ## Programs -/

/-- The items of the fonts and the commands of a program draw the commands. -/
theorem drawing?_commands (fs : List String) (commands : List (Command Float)) :
    drawing? (fs.flatMap fontItems ++ commands.flatMap commandItems) =
      some (commands.map printed) := by
  have h : Machine.initial.Idle := ⟨rfl, rfl, rfl⟩
  obtain ⟨m, hm, -, hd⟩ := Machine.run_commands h commands
  rw [drawing?, Machine.run_append (Machine.run_fonts h fs), hm]
  exact congrArg some hd

theorem decode?_program_eq {commands : List (Command Float)} (h : ∀ c ∈ commands, Printable c) :
    decode? (program commands) = some (commands.map printed) := by
  have hlast (items : List Item) :
      (items ++ [onPage .showPage]).getLast? = some (.operator (.paint .showPage)) := by
    rw [List.getLast?_concat]
    rfl
  simp only [decode?, items?_program h, Option.bind_eq_bind, Option.bind_some, hlast, if_true,
    List.dropLast_concat]
  exact drawing?_commands _ _

/-- The program of a drawing is decoded to the drawing as far as it is written down, where a
number is written as the thousandths nearest to it. The program ends by showing a page once more
than the drawing does, and what comes before draws all of the drawing. So two drawings with one
program are written down alike. -/
theorem decode?_program {commands : List (Command Float)} (h : ∀ c ∈ commands, Printable c) :
    decode? (program commands) = some (commands.map printed) ∧
      (∀ c ∈ commands, ∀ v ∈ c.numbers,
        IsNearest (inThousandths v) (1000 * (Binary.ofFloat v).value)) ∧
      (∃ items, items? (program commands).toList =
          some (items ++ [.operator (.paint .showPage)]) ∧
        drawing? items = some (commands.map printed)) ∧
      ∀ others : List (Command Float), (∀ c ∈ others, Printable c) →
        program others = program commands → others.map printed = commands.map printed := by
  refine ⟨decode?_program_eq h, fun _ _ v _ => (Binary.ofFloat v).isNearest_inThousandths,
    ⟨_, items?_program h, drawing?_commands _ _⟩, ?_⟩
  intro others hothers e
  have hothers := decode?_program_eq hothers
  rw [e, decode?_program_eq h] at hothers
  exact (Option.some.inj hothers).symm

/-- Texts with parentheses, backslashes, line breaks and the names of operators in them. -/
theorem decode?_program_operators_in_texts :
    let commands : List (Command Float) :=
      [.text "\\) show showpage (\\361\\" 1.25 (-0.0001) 12.0 "Times-Roman-ISOLatin1" .right,
        .arc 10.0 20.0 2.5 0.0 360.0 false true 0.5, .pageBreak,
        .text "%!PS\nñ 7 newpath\t€" 0.0625 7.0 0.5 "7" .centre]
    (∀ c ∈ commands, Printable c) ∧
      commands.map printed =
        [.text "\\\\\\) show showpage \\(\\361\\\\" 1250 0 12000 "Times-Roman" .right,
          .arc 10000 20000 2500 0 360000 false true 0, .pageBreak,
          .text "%!PS\n\\361 7 newpath\t?" 62 7000 500 "7" .centre] ∧
      decode? (program commands) = some (commands.map printed) ∧
      (∀ c ∈ commands, ∀ v ∈ c.numbers,
        IsNearest (inThousandths v) (1000 * (Binary.ofFloat v).value)) ∧
      (∃ items, items? (program commands).toList =
          some (items ++ [.operator (.paint .showPage)]) ∧
        drawing? items = some (commands.map printed)) ∧
      ∀ others : List (Command Float), (∀ c ∈ others, Printable c) →
        program others = program commands → others.map printed = commands.map printed := by
  intro commands
  have h : ∀ c ∈ commands, Printable c := by decide +kernel
  exact ⟨h, by decide +kernel, decode?_program h⟩

end Tablature.PostScript
