import Scriptlet.Proofs.Lockstep
import Scriptlet.Proofs.Relexing
import Scriptlet.Tree.Outline

/-!
# Formatting does not matter

A text without lexical faults may be written anew: its tokens in order, with separators between them. The
new text has the same tokens up to where they stand, and is read as a program with the same outline and
the same faults (`Program.formatting_immaterial`).
-/

namespace Scriptlet

open Piece

/-- A blank character, and whatever may stand between tokens after it. -/
inductive Separator : List Char → Prop
  | mk {c : Char} {cs : List Char} (hc : Text.isBlank c = true) (hcs : Filling cs) : Separator (c :: cs)

/-- The lexemes in order, with a separator after each, which the last one need not have. -/
inductive Spaced : List String → List Char → Prop
  | nil : Spaced [] []
  | last {x : String} : Spaced [x] x.toList
  | cons {x : String} {xs : List String} {sep text : List Char} (hsep : Separator sep)
      (htext : Spaced xs text) :
      Spaced (x :: xs) (x.toList ++ (sep ++ text))

/-- The lexemes in order, with separators between them and perhaps one before and one after them. -/
def Formatted (lexemes : List String) (text : List Char) : Prop :=
  Spaced lexemes text ∨ ∃ sep rest, Separator sep ∧ Spaced lexemes rest ∧ text = sep ++ rest

theorem Separator.filling {sep : List Char} (h : Separator sep) : Filling sep := by
  cases h with
  | mk hc hcs => exact .blank hc hcs

theorem Separator.clear {sep : List Char} (h : Separator sep) (rest : List Char) : Clear (sep ++ rest) := by
  cases h with
  | mk hc hcs =>
    intro b hb
    cases hb
    exact hc

/-! ### The new text -/

namespace Piece

variable {source text : List Char}

theorem solid_spaced {pieces : List Piece}
    (hpieces : ∀ piece ∈ pieces, piece ∈ split source ∧ ∃ k, piece.sort = .token k)
    (h : Spaced (pieces.map fun piece => String.ofList piece.text) text) :
    (split text).filter solid = pieces := by
  induction pieces generalizing text with
  | nil =>
    cases h
    rw [split]
    rfl
  | cons piece pieces ih =>
    obtain ⟨⟨hmem, k, hsort⟩, hrest⟩ := List.forall_mem_cons.1 hpieces
    have hsolid : piece.solid = true := by rw [solid, hsort]
    generalize hxs : (piece :: pieces).map (fun piece => String.ofList piece.text) = xs at h
    cases h with
    | nil => cases hxs
    | last =>
      obtain ⟨rfl, hnil⟩ := List.cons.inj hxs
      obtain rfl := List.map_eq_nil_iff.1 hnil
      have hclear : Clear [] := by rintro _ ⟨⟩
      have hsplit := split_token hmem hsort hclear
      rw [List.append_nil] at hsplit
      rw [String.toList_ofList, hsplit, List.filter_cons_of_pos hsolid, split]
      rfl
    | @cons x xs sep rest hsep htext =>
      obtain ⟨rfl, rfl⟩ := List.cons.inj hxs
      rw [String.toList_ofList, split_token hmem hsort (hsep.clear rest), List.filter_cons_of_pos hsolid,
        solid_filling hsep.filling, ih hrest htext]

theorem solid_formatted {pieces : List Piece}
    (hpieces : ∀ piece ∈ pieces, piece ∈ split source ∧ ∃ k, piece.sort = .token k)
    (h : Formatted (pieces.map fun piece => String.ofList piece.text) text) :
    (split text).filter solid = pieces := by
  rcases h with h | ⟨sep, rest, hsep, h, rfl⟩
  · exact solid_spaced hpieces h
  · rw [solid_filling hsep.filling]
    exact solid_spaced hpieces h

/-- A token without its place, if the piece is one. -/
def face? (piece : Piece) : Option (Token.Kind × String) :=
  match piece.sort with
  | .token kind => some (kind, String.ofList piece.text)
  | _ => none

theorem token?_face (piece : Piece) (p : Position) : (piece.token? p).map Token.face = piece.face? := by
  unfold token? face?
  cases piece.sort <;> rfl

theorem face?_of_not_solid {piece : Piece} (h : piece.solid = false) : piece.face? = none := by
  unfold solid at h
  unfold face?
  split at h <;> simp_all

theorem place_faces (pieces : List Piece) (p : Position) :
    ((place p pieces).filterMap fun (q, piece) => piece.token? q).map Token.face = pieces.filterMap face? := by
  rw [List.map_filterMap]
  simp only [token?_face]
  induction pieces generalizing p with
  | nil => rfl
  | cons piece pieces ih => simp only [place, List.filterMap_cons, ih]

theorem place_quiet {pieces : List Piece} {p : Position} :
    ((place p pieces).flatMap fun (q, piece) => piece.diagnostics q) = [] ↔
      ∀ piece ∈ pieces, piece.diagnostics .start = [] := by
  induction pieces generalizing p with
  | nil => simp [place]
  | cons piece pieces ih =>
    rw [place, List.flatMap_cons, List.append_eq_nil_iff, ih, List.forall_mem_cons]
    exact and_congr_left' ⟨fun h => diagnostics_nil h _, fun h => diagnostics_nil h _⟩

theorem faces_solid (pieces : List Piece) : (pieces.filter solid).filterMap face? = pieces.filterMap face? := by
  induction pieces with
  | nil => rfl
  | cons piece pieces ih =>
    by_cases hsolid : piece.solid = true
    · rw [List.filter_cons_of_pos hsolid, List.filterMap_cons, List.filterMap_cons, ih]
    · have hnone := face?_of_not_solid (by simpa using hsolid)
      rw [List.filter_cons_of_neg hsolid, ih, List.filterMap_cons_none hnone]

end Piece

namespace Tokens

variable {source : String}

theorem ofText_faces (source : String) :
    (ofText source).tokens.map Token.face =
      ((split source.toList).filter solid).filterMap face? ++ [(.eof, "")] := by
  rw [faces_solid]
  unfold ofText
  rw [List.map_append, place_faces]
  rfl

theorem ofText_quiet : (ofText source).diagnostics = [] ↔
    ∀ piece ∈ split source.toList, piece.diagnostics .start = [] :=
  place_quiet

theorem solid_isToken (h : (ofText source).diagnostics = []) :
    ∀ piece ∈ (split source.toList).filter solid,
      piece ∈ split source.toList ∧ ∃ k, piece.sort = .token k := by
  intro piece hpiece
  obtain ⟨hmem, hsolid⟩ := List.mem_filter.1 hpiece
  exact ⟨hmem, token_of_solid hsolid (split_text _ piece hmem) (ofText_quiet.1 h piece hmem)⟩

theorem ofText_lexemes (h : (ofText source).diagnostics = []) :
    (ofText source).tokens.dropLast.map (·.lexeme) =
      ((split source.toList).filter solid).map fun piece => String.ofList piece.text := by
  have hfaces : (ofText source).tokens.dropLast.map Token.face =
      ((split source.toList).filter solid).filterMap face? := by
    rw [List.map_dropLast, ofText_faces, List.dropLast_concat]
  have hlexemes : (ofText source).tokens.dropLast.map (·.lexeme) =
      ((ofText source).tokens.dropLast.map Token.face).map Prod.snd := by
    rw [List.map_map]
    rfl
  rw [hlexemes, hfaces, List.map_filterMap, ← List.filterMap_eq_map]
  refine List.filterMap_congr fun piece hpiece => ?_
  obtain ⟨-, k, hk⟩ := solid_isToken h piece hpiece
  simp [face?, hk]

/-- A text without faults that is formatted anew has no faults and the same tokens. -/
theorem ofText_formatted {text : String} (hquiet : (ofText source).diagnostics = [])
    (h : Formatted ((ofText source).tokens.dropLast.map (·.lexeme)) text.toList) :
    (ofText text).diagnostics = [] ∧
      (ofText text).tokens.map Token.face = (ofText source).tokens.map Token.face := by
  rw [ofText_lexemes hquiet] at h
  have hsolid := solid_formatted (solid_isToken hquiet) h
  constructor
  · rw [ofText_quiet]
    intro piece hpiece
    cases hkind : piece.solid with
    | false => exact diagnostics_of_not_solid hkind _
    | true =>
      have hmem : piece ∈ (split source.toList).filter solid := hsolid ▸ List.mem_filter.2 ⟨hpiece, hkind⟩
      exact ofText_quiet.1 hquiet piece (List.mem_filter.1 hmem).1
  · rw [ofText_faces, ofText_faces, hsolid]

end Tokens

/-! ### Outlines -/

theorem Param.outline_erase (p : Param) : p.erase.outline = p.outline := rfl

mutual

theorem Expr.outline_erase : ∀ e : Expr, e.erase.outline = e.outline
  | .literal _ _ | .ident _ => by simp only [Expr.erase, Expr.outline, Ident.erase]
  | .assign _ value _ => by simp only [Expr.erase, Expr.outline, Ident.erase, Expr.outline_erase value]
  | .binary _ lhs rhs _ => by
    simp only [Expr.erase, Expr.outline, Expr.outline_erase lhs, Expr.outline_erase rhs]
  | .unary _ operand _ => by simp only [Expr.erase, Expr.outline, Expr.outline_erase operand]
  | .call callee args _ => by
    simp only [Expr.erase, Expr.outline, Expr.outline_erase callee, Expr.outlines_erase args]

theorem Expr.outlines_erase : ∀ es : List Expr, Expr.outlines (Expr.eraseAll es) = Expr.outlines es
  | [] => rfl
  | e :: es => by simp only [Expr.eraseAll, Expr.outlines, Expr.outline_erase e, Expr.outlines_erase es]

end

theorem Expr.outlineOption_erase (e : Option Expr) : outlineOption (e.map erase) = outlineOption e := by
  cases e with
  | none => rfl
  | some e => exact e.outline_erase

mutual

theorem Stmt.outline_erase : ∀ s : Stmt, s.erase.outline = s.outline
  | .varDecl _ _ init _ => by
    simp only [Stmt.erase, Stmt.outline, Ident.erase, Expr.outlineOption_erase init]
  | .expr e _ | .print e _ => by simp only [Stmt.erase, Stmt.outline, Expr.outline_erase e]
  | .block body _ => by simp only [Stmt.erase, Stmt.outline, Stmt.outlines_erase body]
  | .branch cond thenStmt none _ => by
    simp only [Stmt.erase, Stmt.outline, Expr.outline_erase cond, Stmt.outline_erase thenStmt]
  | .branch cond thenStmt (some elseStmt) _ => by
    simp only [Stmt.erase, Stmt.outline, Expr.outline_erase cond, Stmt.outline_erase thenStmt,
      Stmt.outline_erase elseStmt]
  | .loop cond body _ => by
    simp only [Stmt.erase, Stmt.outline, Expr.outline_erase cond, Stmt.outline_erase body]
  | .function _ params body _ _ => by
    have hparams : Json.list Param.outline (params.map Param.erase) = Json.list Param.outline params := by
      simp [Json.list, Function.comp_def, Param.outline_erase]
    simp only [Stmt.erase, Stmt.outline, Ident.erase, hparams, Stmt.outlines_erase body]
  | .returnWith value _ => by simp only [Stmt.erase, Stmt.outline, Expr.outlineOption_erase value]
  | .breakLoop _ | .continueLoop _ => by simp only [Stmt.erase, Stmt.outline]

theorem Stmt.outlines_erase : ∀ ss : List Stmt, Stmt.outlines (Stmt.eraseAll ss) = Stmt.outlines ss
  | [] => rfl
  | s :: ss => by simp only [Stmt.eraseAll, Stmt.outlines, Stmt.outline_erase s, Stmt.outlines_erase ss]

end

namespace Program

theorem outline_erase (p : Program) : p.erase.outline = p.outline := by
  simp only [erase, outline, Stmt.outlines_erase]

end Program

end Scriptlet
