import BlockIR.Pass.DeadVariable
import BlockIR.Proofs.Instr.Display

/-! A program is shown line by line. The lines can be told apart, since no name has a line break in it, each of
them can be read, and from the lines the blocks and functions are put together again. -/

namespace BlockIR

inductive DisplayLine where
  | header (name : Text) (params : List Param) (ret : Option Ty)
  | label (name : Text)
  | instr (i : Instr)
  | closing
  | blank

namespace DisplayLine

def text : DisplayLine → String
  | header x ps ret => String.join
      ["@", x.shown, "(", String.intercalate "," (ps.map Param.display), "): ", Ty.displayOption ret, " \x7b"]
  | label x => String.join [".", x.shown, ":"]
  | instr i => "    " ++ i.display
  | closing => "\x7d"
  | blank => ""

@[simp] lemma text_header (x : Text) (ps : List Param) (ret : Option Ty) : (header x ps ret).text.toList =
    '@' :: (x.shown.toList ++ '(' :: ([','].intercalate (ps.map (·.display.toList)) ++
      ')' :: ':' :: ' ' :: ((Ty.displayOption ret).toList ++ [' ', '\x7b']))) := by
  simp [text, Function.comp_def]

@[simp] lemma text_label (x : Text) : (label x).text.toList = '.' :: (x.shown.toList ++ [':']) := by
  simp [text]

@[simp] lemma text_instr (i : Instr) : (instr i).text.toList = ' ' :: ' ' :: ' ' :: ' ' :: i.display.toList := by
  simp [text]

@[simp] lemma text_closing : closing.text.toList = ['\x7d'] := rfl

@[simp] lemma text_blank : blank.text.toList = [] := rfl

end DisplayLine

def Block.displayLines (b : Block) : List DisplayLine :=
  .label b.name :: b.instrs.map .instr

def Func.displayLines (f : Func) : List DisplayLine :=
  .header f.name f.params f.ret :: (f.blocks.flatMap Block.displayLines ++ [.closing, .blank])

def Program.displayLines (p : Program) : List DisplayLine :=
  p.funcs.flatMap Func.displayLines

lemma cons_flatMap_append {α : Type} (c : Char) (g : α → List Char) (as : List α) :
    c :: as.flatMap (fun a => g a ++ [c]) = as.flatMap (fun a => c :: g a) ++ [c] := by
  induction as with
  | nil => rfl
  | cons a as ih => simp [← ih]

lemma Block.display_toList (b : Block) :
    b.display.toList = b.displayLines.flatMap fun l => l.text.toList ++ ['\n'] := by
  simp [display, displayLines, List.flatMap_map]

lemma Func.display_eq (f : Func) : f.display = "\n".intercalate (f.displayLines.map DisplayLine.text) := by
  have hblocks : '\n' :: f.blocks.flatMap (·.display.toList) =
      (f.blocks.flatMap Block.displayLines).flatMap (fun l => '\n' :: l.text.toList) ++ ['\n'] := by
    rw [← cons_flatMap_append, List.flatMap_assoc]
    simp only [Block.display_toList]
  have hbody : '\n' :: (f.blocks.flatMap (·.display.toList) ++ ['\x7d', '\n']) =
      (f.blocks.flatMap Block.displayLines).flatMap (fun l => '\n' :: l.text.toList) ++ ['\n', '\x7d', '\n'] := by
    rw [← List.cons_append, hblocks, List.append_assoc]
    rfl
  apply String.toList_injective
  simpa [display, displayLines, Listing.intercalate_cons, List.flatMap_map, Function.comp_def] using hbody

lemma intercalate_flatMap {α : Type} (sep : String) {g : α → List String} (hg : ∀ a, g a ≠ []) (as : List α) :
    sep.intercalate (as.map fun a => sep.intercalate (g a)) = sep.intercalate (as.flatMap g) := by
  induction as with
  | nil => rfl
  | cons a as ih =>
    cases as with
    | nil => simp
    | cons b as =>
      have hne : (b :: as).flatMap g ≠ [] := by simp [hg b]
      rw [List.map_cons, String.intercalate_cons_of_ne_nil (by simp), ih,
        ← String.intercalate_append_of_ne_nil (hg a) hne, ← List.flatMap_cons]

lemma Program.display_eq (p : Program) : p.display = "\n".intercalate (p.displayLines.map DisplayLine.text) := by
  have hne (f : Func) : f.displayLines.map DisplayLine.text ≠ [] := by simp [Func.displayLines]
  rw [display, displayLines, List.map_flatMap, ← intercalate_flatMap "\n" hne]
  simp only [← Func.display_eq]

/-- What has been read of a program from its end on: functions, blocks that belong to no function yet, and
instructions that belong to no block yet. -/
structure Gathered where
  funcs : List Func := []
  blocks : List Block := []
  instrs : List Instr := []

namespace DisplayLine

def gather : DisplayLine → Gathered → Gathered
  | header x ps ret, g => { funcs := ⟨x, ps, ret, g.blocks⟩ :: g.funcs, instrs := g.instrs }
  | label x, g => { funcs := g.funcs, blocks := ⟨x, g.instrs⟩ :: g.blocks }
  | instr i, g => { g with instrs := i :: g.instrs }
  | closing, g | blank, g => g

end DisplayLine

open DisplayLine (gather)

lemma Block.gather_displayLines (b : Block) (fs : List Func) (bs : List Block) :
    b.displayLines.foldr gather { funcs := fs, blocks := bs } = { funcs := fs, blocks := b :: bs } := by
  have hinstrs (is : List Instr) : (is.map DisplayLine.instr).foldr gather { funcs := fs, blocks := bs } =
      { funcs := fs, blocks := bs, instrs := is } := by
    induction is with
    | nil => rfl
    | cons i is ih => rw [List.map_cons, List.foldr_cons, ih, gather]
  rw [displayLines, List.foldr_cons, hinstrs, gather]

lemma Func.gather_displayLines (f : Func) (fs : List Func) :
    f.displayLines.foldr gather { funcs := fs } = { funcs := f :: fs } := by
  have hblocks (bs : List Block) : (bs.flatMap Block.displayLines).foldr gather { funcs := fs } =
      { funcs := fs, blocks := bs } := by
    induction bs with
    | nil => rfl
    | cons b bs ih => rw [List.flatMap_cons, List.foldr_append, ih, Block.gather_displayLines]
  rw [displayLines, List.foldr_cons, List.foldr_append]
  simp only [List.foldr_cons, List.foldr_nil, gather, hblocks]

namespace Program

lemma gather_displayLines (p : Program) : p.displayLines.foldr gather {} = { funcs := p.funcs } := by
  obtain ⟨fs⟩ := p
  induction fs with
  | nil => rfl
  | cons f fs ih =>
    have hlines : displayLines ⟨f :: fs⟩ = f.displayLines ++ displayLines ⟨fs⟩ := List.flatMap_cons
    rw [hlines, List.foldr_append, ih, Func.gather_displayLines]

lemma displayLines_injective {p q : Program} (h : p.displayLines = q.displayLines) : p = q := by
  have hfuncs := p.gather_displayLines.symm.trans (h ▸ q.gather_displayLines)
  obtain ⟨fs⟩ := p
  obtain ⟨gs⟩ := q
  exact congrArg mk (Gathered.mk.inj hfuncs).1

end Program

namespace Param

variable {p q : Param}

lemma display_toList (p : Param) :
    p.display.toList = p.name.shown.toList ++ ':' :: ' ' :: (Ty.displayOption p.type).toList := by
  simp [display]

lemma not_mem_display (hp : p.name.isIdent = true) {c : Char} (hc : Listing.isIdentRest c = false)
    (hcolon : c ≠ ':') (hblank : c ≠ ' ') : c ∉ p.display.toList := by
  have hname := Text.not_mem_shown hp hc
  have htype := not_mem_of_letters (Ty.displayOption_letters p.type) hc
  simp [display_toList, hname, htype, hcolon, hblank]

lemma eq_of_display_eq (hp : p.name.isIdent = true) (hq : q.name.isIdent = true)
    (h : p.display.toList = q.display.toList) : p = q := by
  rw [display_toList, display_toList] at h
  obtain ⟨hname, hrest⟩ := append_cons_inj_of_not_mem (Text.not_mem_shown hp rfl) (Text.not_mem_shown hq rfl) h
  obtain ⟨x, s⟩ := p
  obtain ⟨y, t⟩ := q
  exact congrArg₂ mk (Text.eq_of_shown_eq hp hq hname) (Ty.displayOption_injective (List.cons.inj hrest).2)

lemma not_mem_map_display {ps : List Param} (hps : ∀ p ∈ ps, p.name.isIdent = true) {c : Char}
    (hc : Listing.isIdentRest c = false) (hmark : c ∉ [':', ' ']) : ∀ l ∈ ps.map (·.display.toList), c ∉ l := by
  simp only [List.mem_cons, List.not_mem_nil, or_false, not_or] at hmark
  exact List.forall_mem_map.2 fun p hp => not_mem_display (hps p hp) hc hmark.1 hmark.2

lemma eq_of_intercalate_display_eq {ps qs : List Param} (hps : ∀ p ∈ ps, p.name.isIdent = true)
    (hqs : ∀ q ∈ qs, q.name.isIdent = true)
    (h : [','].intercalate (ps.map (·.display.toList)) = [','].intercalate (qs.map (·.display.toList))) :
    ps = qs := by
  have hcomma {rs : List Param} (hrs : ∀ r ∈ rs, r.name.isIdent = true) :
      ∀ l ∈ rs.map (·.display.toList), ',' ∉ l := not_mem_map_display hrs rfl (by decide)
  have hne (rs : List Param) : rs.map (·.display.toList) ≠ [[]] := by
    simp [List.map_eq_cons_iff, display_toList]
  exact eq_of_map_eq (fun _ _ => eq_of_display_eq) hps hqs
    (eq_of_intercalate_eq (hcomma hps) (hcomma hqs) (hne ps) (hne qs) h)

end Param

namespace DisplayLine

variable {l k : DisplayLine}

def Legible : DisplayLine → Prop
  | header x ps _ => x.isIdent = true ∧ ∀ p ∈ ps, p.name.isIdent = true
  | label x => x.isIdent = true
  | instr i => i.Legible
  | closing | blank => True

lemma Legible.newline_not_mem_text (h : l.Legible) : '\n' ∉ l.text.toList := by
  cases l with
  | header x ps ret =>
    obtain ⟨hx, hps⟩ := h
    have hname := Text.not_mem_shown hx (c := '\n') rfl
    have hparams := not_mem_intercalate (Param.not_mem_map_display hps (c := '\n') rfl (by decide))
      (by decide : '\n' ≠ ',')
    have hret := not_mem_of_letters (Ty.displayOption_letters ret) (c := '\n') rfl
    simp [hname, hparams, hret]
  | label x => simpa using Text.not_mem_shown h rfl
  | instr i => simpa using Instr.Legible.newline_not_mem_display h
  | closing => decide
  | blank => decide

lemma Legible.eq_of_text_eq (hl : l.Legible) (hk : k.Legible) (h : l.text.toList = k.text.toList) : l = k := by
  cases l with
  | header x ps ret =>
    cases k with
    | header y qs ret' =>
      obtain ⟨hx, hps⟩ := hl
      obtain ⟨hy, hqs⟩ := hk
      have hparen {rs : List Param} (hrs : ∀ r ∈ rs, r.name.isIdent = true) :
          ')' ∉ [','].intercalate (rs.map (·.display.toList)) :=
        not_mem_intercalate (Param.not_mem_map_display hrs rfl (by decide)) (by decide)
      rw [text_header, text_header] at h
      obtain ⟨hname, h⟩ :=
        append_cons_inj_of_not_mem (Text.not_mem_shown hx rfl) (Text.not_mem_shown hy rfl) (List.cons.inj h).2
      obtain ⟨hparams, h⟩ := append_cons_inj_of_not_mem (hparen hps) (hparen hqs) h
      have hret := List.append_cancel_right (List.cons.inj (List.cons.inj h).2).2
      rw [Text.eq_of_shown_eq hx hy hname, Param.eq_of_intercalate_display_eq hps hqs hparams,
        Ty.displayOption_injective hret]
    | _ => simp at h
  | label x =>
    cases k with
    | label y =>
      rw [text_label, text_label] at h
      rw [Text.eq_of_shown_eq hl hk (List.append_cancel_right (List.cons.inj h).2)]
    | _ => simp at h
  | instr i =>
    cases k with
    | instr j =>
      rw [text_instr, text_instr] at h
      rw [Instr.Legible.eq_of_display_eq hl hk ((List.append_right_inj [' ', ' ', ' ', ' ']).1 h)]
    | _ => simp at h
  | closing =>
    cases k with
    | closing => rfl
    | _ => simp at h
  | blank =>
    cases k with
    | blank => rfl
    | _ => simp at h

end DisplayLine

@[mk_iff]
structure Block.Legible (b : Block) : Prop where
  name : b.name.isIdent = true
  instrs : ∀ i ∈ b.instrs, i.Legible

@[mk_iff]
structure Func.Legible (f : Func) : Prop where
  name : f.name.isIdent = true
  params : ∀ p ∈ f.params, p.name.isIdent = true
  blocks : ∀ b ∈ f.blocks, b.Legible

def Program.Legible (p : Program) : Prop :=
  ∀ f ∈ p.funcs, f.Legible

instance (i : Instr) : Decidable i.Legible :=
  decidable_of_iff _ i.legible_iff.symm

instance (b : Block) : Decidable b.Legible :=
  decidable_of_iff _ b.legible_iff.symm

instance (f : Func) : Decidable f.Legible :=
  decidable_of_iff _ f.legible_iff.symm

instance (p : Program) : Decidable p.Legible :=
  inferInstanceAs (Decidable (∀ f ∈ p.funcs, f.Legible))

lemma Block.Legible.displayLines {b : Block} (h : b.Legible) : ∀ l ∈ b.displayLines, l.Legible :=
  List.forall_mem_cons.2 ⟨h.name, List.forall_mem_map.2 h.instrs⟩

lemma Func.Legible.displayLines {f : Func} (h : f.Legible) : ∀ l ∈ f.displayLines, l.Legible := by
  refine List.forall_mem_cons.2 ⟨⟨h.name, h.params⟩, List.forall_mem_append.2 ⟨?_, ?_⟩⟩
  · exact List.forall_mem_flatMap.2 fun b hb => (h.blocks b hb).displayLines
  · simp [DisplayLine.Legible]

namespace Program

variable {p q : Program}

lemma Legible.displayLines (h : p.Legible) : ∀ l ∈ p.displayLines, l.Legible :=
  List.forall_mem_flatMap.2 fun f hf => (h f hf).displayLines

lemma Legible.map_text_eq (hp : p.Legible) (hq : q.Legible) (h : p.display = q.display) :
    p.displayLines.map (·.text.toList) = q.displayLines.map (·.text.toList) := by
  have hnewline {r : Program} (hr : r.Legible) : ∀ l ∈ r.displayLines.map (·.text.toList), '\n' ∉ l :=
    List.forall_mem_map.2 fun l hl => (hr.displayLines l hl).newline_not_mem_text
  have hne (r : Program) : r.displayLines.map (·.text.toList) ≠ [[]] := by
    obtain ⟨_ | ⟨f, fs⟩⟩ := r <;> simp [Program.displayLines, Func.displayLines]
  have hchars (r : Program) : r.display.toList = ['\n'].intercalate (r.displayLines.map (·.text.toList)) := by
    simp [display_eq, Function.comp_def]
  exact eq_of_intercalate_eq (hnewline hp) (hnewline hq) (hne p) (hne q) (by rw [← hchars, h, hchars])

/-- Programs with names that are names and instructions of the right shapes are the same if they are shown in
the same way. -/
theorem display_unambiguous (p q : Program) (hp : p.Legible) (hq : q.Legible) (h : p.display = q.display) :
    p = q := by
  refine displayLines_injective (eq_of_map_eq ?_ hp.displayLines hq.displayLines (hp.map_text_eq hq h))
  exact fun _ _ => DisplayLine.Legible.eq_of_text_eq

theorem display_unambiguous_emptied :
    let f (is : List Instr) : Func :=
      { name := "Add"
        params := [⟨"true", some .bool⟩, ⟨"x.1", none⟩]
        ret := some .int
        blocks := [⟨"Int", is⟩, ⟨"b.", [
          { op := .const, dest := some "ret", type := some .int, value := some (.int (-10)) },
          { op := .call, funcs := ["Add"], args := ["true", "ret"] },
          { op := .br, args := ["true"], labels := ["Int", "b."] }]⟩] }
    let p : Program :=
      map ⟨[f [{ op := .const, dest := some "void", type := some .bool, value := some (.bool true) }], f []]⟩
        Func.dropDeadVariables
    let q : Program := ⟨[f [], f []]⟩
    p.Legible ∧ q.Legible ∧ p.display = q.display ∧ p = q := by
  intro f p q
  have hp : p.Legible := by decide +kernel
  have hq : q.Legible := by decide +kernel
  have h : p.display = q.display := by decide +kernel
  exact ⟨hp, hq, h, display_unambiguous p q hp hq h⟩

end Program

end BlockIR
