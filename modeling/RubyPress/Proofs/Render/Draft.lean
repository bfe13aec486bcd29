import RubyPress.Proofs.Render.Written

/-!
# Drafts

A writer has one text that it adds to from the first piece to the last, and a count of the nodes it
is inside of. A node counts itself while its pieces are written, and it is refused where too many
nodes are open. A program puts a line break in front of every statement but the first, and takes it
back if nothing comes behind it. What a step has added before it fails stays in the draft.

A draft gains what `write` gives for the levels that are left, and its count is the same before and
after, so that nothing of what is behind a node depends on how the node was written. The entry
points that work on a draft agree with those that put texts together.
-/

namespace RubyPress

open Render

/-- What has been written so far, and the number of nodes that are open. -/
structure Draft where
  output : List Char := []
  depth : Nat := 0

namespace Draft

def push (draft : Draft) (content : List Char) : Draft :=
  { draft with output := draft.output ++ content }

def enter (draft : Draft) : Draft := { draft with depth := draft.depth + 1 }

def leave (draft : Draft) : Draft := { draft with depth := draft.depth - 1 }

/-- Takes back what has been written after the first `length` letters. -/
def truncate (draft : Draft) (length : Nat) : Draft :=
  { draft with output := draft.output.take length }

/-- Whether a step succeeds, and the draft that it leaves. -/
abbrev Step := Draft → Except Unsupported Unit × Draft

/-- Pieces one after the other, up to the first failure. -/
def addPieces (separator : Separator) :
    (pieces : List Piece) → ((child : Node) → .child child ∈ pieces → Step) → Step
  | [], _, draft => (.ok (), draft)
  | .text content :: rest, add, draft =>
    addPieces separator rest (fun child hchild => add child (.tail _ hchild)) (draft.push content)
  | .separator :: rest, add, draft =>
    addPieces separator rest (fun child hchild => add child (.tail _ hchild))
      (draft.push separator.text.toList)
  | .child node :: rest, add, draft =>
    match add node (.head _) draft with
    | (.error cause, after) => (.error cause, after)
    | (.ok (), after) =>
      addPieces separator rest (fun child hchild => add child (.tail _ hchild)) after

def addWithin (kind : Kind) (inner : Step) : Step := fun draft =>
  if maxDepth ≤ draft.depth then (.error (.tooDeep kind), draft)
  else
    let (result, after) := inner draft.enter
    (result, after.leave)

theorem sizeOf_lt_of_near {node other : Node} (h : node.Near other) :
    sizeOf other < sizeOf node := by
  rcases h with hmem | ⟨child, hchild, hmem⟩
  · exact Node.sizeOf_lt_of_mem_children hmem
  · exact (Node.sizeOf_lt_of_mem_children hmem).trans (Node.sizeOf_lt_of_mem_children hchild)

def addNode (config : RenderConfig) (node : Node) : Step :=
  addWithin node.kind
    (match _ : rule config.style node with
      | .error cause => fun draft => (.error cause, draft)
      | .ok pieces => addPieces config.separator pieces fun child _ => addNode config child)
termination_by node
decreasing_by
  have hnear : node.Near child := pieces_rule ‹_› (.child child) ‹_›
  exact sizeOf_lt_of_near hnear

def addStatements (config : RenderConfig) (block : Node) : Step :=
  addPieces config.separator (statements config.style block) fun child _ => addNode config child

/-- What separates a line from the lines in front of it. -/
def lineBreak (lines : Nat) : List Char := if 0 < lines then ['\n'] else []

/-- Top-level statements, with the index of the next one and the number of lines so far. -/
def addEach (config : RenderConfig) :
    List Node → (index lines : Nat) → Draft → Except RenderError Unit × Draft
  | [], _, _, draft => (.ok (), draft)
  | statement :: rest, index, lines, draft =>
    let start := draft.push (lineBreak lines)
    match addNode config statement start with
    | (.error cause, after) => (.error ⟨cause, some index⟩, after)
    | (.ok (), after) =>
      if after.output.length = start.output.length then
        addEach config rest (index + 1) lines (after.truncate draft.output.length)
      else addEach config rest (index + 1) (lines + 1) after

def finish : Except Unsupported Unit × Draft → Except RenderError String
  | (.ok (), draft) => .ok (String.ofList draft.output)
  | (.error cause, _) => .error ⟨cause, none⟩

def renderNode (config : RenderConfig) (node : Node) : Except RenderError String :=
  finish (addNode config node {})

def renderStatements (config : RenderConfig) (block : Node) : Except RenderError String :=
  finish (addStatements config block {})

def renderProgram (config : RenderConfig) (program : Node) : Except RenderError String :=
  match addEach config program.statements 0 0 {} with
  | (.ok (), draft) => .ok (String.ofList draft.output)
  | (.error error, _) => .error error

/-- What a step leaves that stands for a text: the text is added, or the step fails and has added
no more than a part of it. -/
inductive Adds (draft : Draft) :
    Except Unsupported (List Char) → Except Unsupported Unit × Draft → Prop where
  | ok (content : List Char) : Adds draft (.ok content) (.ok (), draft.push content)
  | error (cause : Unsupported) (part : List Char) :
      Adds draft (.error cause) (.error cause, draft.push part)

variable {config : RenderConfig} {draft : Draft} {separator : Separator} {pieces : List Piece}

@[simp]
theorem push_nil : draft.push [] = draft := by
  simp [push]

@[simp]
theorem push_push (first second : List Char) :
    (draft.push first).push second = draft.push (first ++ second) := by
  simp [push]

@[simp]
theorem depth_push (content : List Char) : (draft.push content).depth = draft.depth := rfl

@[simp]
theorem output_push (content : List Char) :
    (draft.push content).output = draft.output ++ content := rfl

@[simp]
theorem depth_enter : draft.enter.depth = draft.depth + 1 := rfl

@[simp]
theorem leave_push_enter (content : List Char) :
    (draft.enter.push content).leave = draft.push content := rfl

@[simp]
theorem truncate_push (content : List Char) :
    (draft.push content).truncate draft.output.length = draft := by
  simp [push, truncate]

namespace Adds

variable {result : Except Unsupported (List Char)} {outcome : Except Unsupported Unit × Draft}

theorem refused (cause : Unsupported) : Adds draft (.error cause) (.error cause, draft) := by
  have herror : Adds draft (.error cause) (.error cause, draft.push []) := .error cause []
  rwa [push_nil] at herror

theorem depth_eq (h : Adds draft result outcome) : outcome.2.depth = draft.depth := by
  cases h <;> rfl

theorem eq_of_ok {content : List Char} (h : Adds draft (.ok content) outcome) :
    outcome = (.ok (), draft.push content) := by
  cases h
  rfl

theorem eq_of_error {cause : Unsupported} (h : Adds draft (.error cause) outcome) :
    outcome.1 = .error cause := by
  cases h
  rfl

/-- Another step leaves the same draft if it adds the same text. -/
theorem eq_of_forall_ok {other : Except Unsupported (List Char)}
    {after : Except Unsupported Unit × Draft} (h : Adds draft result outcome)
    (hother : Adds draft other after)
    (hsame : ∀ content, result = .ok content → other = .ok content) (hok : outcome.1 = .ok ()) :
    after = outcome := by
  cases h with
  | ok content =>
      obtain rfl := hsame content rfl
      exact hother.eq_of_ok
  | error => cases hok

theorem after_push {content : List Char} (h : Adds (draft.push content) result outcome) :
    Adds draft (result.map (content ++ ·)) outcome := by
  cases h with
  | ok rest =>
      rw [push_push]
      exact .ok (content ++ rest)
  | error cause part =>
      rw [push_push]
      exact .error cause (content ++ part)

end Adds

theorem adds_pieces {emit : Node → Except Unsupported (List Char)} {depth : Nat}
    {add : (child : Node) → .child child ∈ pieces → Step}
    (hadd : ∀ child hchild (draft : Draft), draft.depth = depth →
      Adds draft (emit child) (add child hchild draft)) (hdepth : draft.depth = depth) :
    Adds draft (writePieces separator emit pieces) (addPieces separator pieces add draft) := by
  induction pieces generalizing draft with
  | nil =>
      have hnil : Adds draft (.ok []) (.ok (), draft.push []) := .ok []
      rwa [push_nil] at hnil
  | cons piece pieces ih =>
      have hrest (content : List Char) : Adds (draft.push content)
          (writePieces separator emit pieces) (addPieces separator pieces
            (fun child hchild => add child (.tail _ hchild)) (draft.push content)) :=
        ih (fun child hchild => hadd child (.tail _ hchild)) hdepth
      cases piece with
      | text content | separator =>
          rw [writePieces_cons _ rfl]
          exact (hrest _).after_push
      | child node =>
          have hnode := hadd node (.head _) draft hdepth
          rw [addPieces]
          generalize add node (.head _) draft = outcome at hnode
          generalize hemit : emit node = result at hnode
          cases hnode with
          | error cause part =>
              have herror : writePieces separator emit (.child node :: pieces) = .error cause := by
                rw [writePieces, writePiece, hemit]
              rw [herror]
              exact .error cause part
          | ok content =>
              rw [writePieces_cons (.child node) hemit]
              exact (hrest content).after_push

theorem adds_within {kind : Kind} {inner : Step} {result : Except Unsupported (List Char)}
    (hdepth : draft.depth < maxDepth) (h : Adds draft.enter result (inner draft.enter)) :
    Adds draft result (addWithin kind inner draft) := by
  rw [addWithin, if_neg (Nat.not_le.2 hdepth)]
  generalize inner draft.enter = outcome at h
  cases h with
  | ok content => exact .ok content
  | error cause part => exact .error cause part

variable {node : Node}

theorem addNode_of_error {cause : Unsupported} (hrule : rule config.style node = .error cause) :
    addNode config node = addWithin node.kind fun draft => (.error cause, draft) := by
  rw [addNode]
  split
  · next hother => rw [Except.error.inj (hrule.symm.trans hother)]
  · next hother => cases hrule.symm.trans hother

theorem addNode_of_ok (hrule : rule config.style node = .ok pieces) :
    addNode config node = addWithin node.kind
      (addPieces config.separator pieces fun child _ => addNode config child) := by
  rw [addNode]
  split
  · next hother => cases hrule.symm.trans hother
  · next hother =>
      obtain rfl := Except.ok.inj (hrule.symm.trans hother)
      rfl

/-- **A node in a draft** adds what is written for it with the levels that are left. -/
theorem adds_node (config : RenderConfig) (node : Node) (draft : Draft) :
    Adds draft (write config (maxDepth - draft.depth) node) (addNode config node draft) := by
  generalize hroom : maxDepth - draft.depth = room
  induction room generalizing node draft with
  | zero =>
      have hdeep : maxDepth ≤ draft.depth := Nat.sub_eq_zero_iff_le.1 hroom
      rw [addNode, addWithin, if_pos hdeep, write]
      exact .refused _
  | succ room ih =>
      have hdepth : draft.depth < maxDepth := by omega
      cases hrule : rule config.style node with
      | error cause =>
          rw [addNode_of_error hrule, write, hrule]
          exact adds_within hdepth (.refused cause)
      | ok pieces =>
          have hchild (child : Node) (after : Draft) (hafter : after.depth = draft.enter.depth) :
              Adds after (write config room child) (addNode config child after) := by
            refine ih child after ?_
            rw [hafter, depth_enter]
            omega
          rw [addNode_of_ok hrule, write_succ hrule]
          exact adds_within hdepth (adds_pieces (fun child _ => hchild child) rfl)

theorem addNode_of_write {content : List Char}
    (h : write config (maxDepth - draft.depth) node = .ok content) :
    addNode config node draft = (.ok (), draft.push content) := by
  have hnode := adds_node config node draft
  rw [h] at hnode
  exact hnode.eq_of_ok

theorem addNode_of_write_eq_error {cause : Unsupported}
    (h : write config (maxDepth - draft.depth) node = .error cause) :
    (addNode config node draft).1 = .error cause := by
  have hnode := adds_node config node draft
  rw [h] at hnode
  exact hnode.eq_of_error

theorem depth_addNode (config : RenderConfig) (node : Node) (draft : Draft) :
    (addNode config node draft).2.depth = draft.depth :=
  (adds_node config node draft).depth_eq

theorem adds_statements {block : Node} : Adds draft
    (writePieces config.separator (write config (maxDepth - draft.depth))
      (statements config.style block)) (addStatements config block draft) := by
  refine adds_pieces (fun child _ after hafter => ?_) rfl
  rw [← hafter]
  exact adds_node config child after

theorem finish_eq {result : Except Unsupported (List Char)}
    {outcome : Except Unsupported Unit × Draft} : Adds {} result outcome →
      finish outcome = match result with
        | .error cause => .error ⟨cause, none⟩
        | .ok content => .ok (String.ofList content) := by
  intro h
  cases h <;> rfl

theorem renderNode_eq (config : RenderConfig) (node : Node) :
    renderNode config node = RubyPress.renderNode config node :=
  finish_eq (adds_node config node {})

theorem renderStatements_eq (config : RenderConfig) (block : Node) :
    renderStatements config block = RubyPress.renderStatements config block :=
  finish_eq adds_statements

def lines : Nat → List (List Char) → List Char
  | _, [] => []
  | count, content :: texts =>
    if content.isEmpty then lines count texts
    else lineBreak count ++ content ++ lines (count + 1) texts

theorem lines_succ (count : Nat) (texts : List (List Char)) : lines (count + 1) texts =
    (texts.filter fun content => !content.isEmpty).flatMap ('\n' :: ·) := by
  induction texts generalizing count with
  | nil => rfl
  | cons content texts ih =>
      cases content with
      | nil => exact ih count
      | cons letter letters => simp [lines, lineBreak, ih]

theorem lines_zero (texts : List (List Char)) :
    lines 0 texts = ['\n'].intercalate (texts.filter fun content => !content.isEmpty) := by
  induction texts with
  | nil => rfl
  | cons content texts ih =>
      cases content with
      | nil => exact ih
      | cons letter letters =>
          have hjoin (first : List Char) (others : List (List Char)) :
              ['\n'].intercalate (first :: others) = first ++ others.flatMap ('\n' :: ·) := by
            induction others generalizing first with
            | nil => simp
            | cons second others ih => simp [List.intercalate_cons_cons, ih]
          simp [lines, lineBreak, lines_succ, hjoin]

section Lines

variable {rest : List Node} {index count : Nat} (hdepth : draft.depth = 0)

include hdepth

theorem exists_addEach_cons {content : List Char}
    (hcontent : write config maxDepth node = .ok content) : ∃ front more,
      addEach config (node :: rest) index count draft =
        addEach config rest (index + 1) more (draft.push front) ∧
      ∀ texts, lines count (content :: texts) = front ++ lines more texts := by
  have hroom : maxDepth - (draft.push (lineBreak count)).depth = maxDepth := by
    rw [depth_push, hdepth, Nat.sub_zero]
  rw [addEach, addNode_of_write (hroom ▸ hcontent)]
  cases content with
  | nil => exact ⟨[], count, by simp, fun texts => rfl⟩
  | cons letter letters =>
      exact ⟨lineBreak count ++ letter :: letters, count + 1, by simp, fun texts => by simp [lines]⟩

theorem addEach_cons_of_error {cause : Unsupported}
    (hcause : write config maxDepth node = .error cause) :
    (addEach config (node :: rest) index count draft).1 = .error ⟨cause, some index⟩ := by
  have hroom : maxDepth - (draft.push (lineBreak count)).depth = maxDepth := by
    rw [depth_push, hdepth, Nat.sub_zero]
  have hnode : (addNode config node (draft.push (lineBreak count))).1 = .error cause :=
    addNode_of_write_eq_error (by rwa [hroom])
  rw [addEach]
  generalize addNode config node (draft.push (lineBreak count)) = outcome at hnode
  obtain ⟨result, after⟩ := outcome
  obtain rfl : result = .error cause := hnode
  rfl

end Lines

/-- **A program in a draft** adds the lines of its statements, or fails with the first failure. -/
theorem addEach_eq (config : RenderConfig) (nodes : List Node) (index count : Nat)
    (hdepth : draft.depth = 0) :
    match writeEach config index nodes with
    | .ok texts =>
      addEach config nodes index count draft = (.ok (), draft.push (lines count texts))
    | .error error => (addEach config nodes index count draft).1 = .error error := by
  induction nodes generalizing index count draft with
  | nil => simp [writeEach, addEach, lines]
  | cons node nodes ih =>
      rw [writeEach]
      cases hnode : write config maxDepth node with
      | error cause => exact addEach_cons_of_error hdepth hnode
      | ok content =>
          obtain ⟨front, more, hadd, hlines⟩ := exists_addEach_cons hdepth hnode
          have hrest := ih (index + 1) more ((depth_push front).trans hdepth)
          rw [hadd]
          cases htexts : writeEach config (index + 1) nodes with
          | ok texts =>
              rw [htexts] at hrest
              simp only [hrest, hlines, push_push]
          | error error =>
              rw [htexts] at hrest
              exact hrest

theorem renderProgram_eq (config : RenderConfig) (program : Node) :
    renderProgram config program = RubyPress.renderProgram config program := by
  have hdepth : ({} : Draft).depth = 0 := rfl
  have heach := addEach_eq config program.statements 0 0 hdepth
  rw [renderProgram, RubyPress.renderProgram]
  generalize addEach config program.statements 0 0 {} = outcome at heach
  split at heach
  · next texts htexts =>
      rw [heach, htexts, lines_zero]
      rfl
  · next error herror =>
      obtain ⟨result, after⟩ := outcome
      obtain rfl : result = .error error := heach
      rw [herror]

end Draft

end RubyPress
