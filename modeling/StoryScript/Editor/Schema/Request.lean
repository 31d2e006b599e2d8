import StoryScript.Editor.Schema.Abilities

/-!
Shapes of the parameters of an editor's calls.
-/

namespace StoryScript.Schema

open StoryScript.Shape StoryScript.Field

/-- Parameters that are put together from fields of their own and parts that other calls have too. -/
def params (name : String) (fields : List Field) (parts : List (List Field)) : Shape :=
  composite (name ++ "Params") fields parts any

/-- The fields of a call whose progress and results can be reported. -/
def reported : List (List Field) := [workDone, partialResult]

def starting : Shape :=
  record "InitializeParams"
    [option "processId" word32, option "rootPath" text, .mk "rootUri" .defaulted (nullable uri),
      option "initializationOptions" any, need "capabilities" editorAbilities,
      .mk "trace" .defaulted (nullable (choice ["off", "messages", "verbose"])),
      option "workspaceFolders"
        (list (record "WorkspaceFolder" [need "uri" uri, need "name" text])),
      option "clientInfo" (record "ClientInfo" [need "name" text, option "version" text]),
      option "locale" text]

def place : Shape := record "TextDocumentPositionParams" placeFields

def definition : Shape := params "GotoDefinition" [] (placeFields :: reported)

def references : Shape :=
  params "Reference"
    [need "context" (record "ReferenceContext" [need "includeDeclaration" flag])]
    (placeFields :: reported)

def rename : Shape := params "Rename" [need "newName" text] [placeFields, workDone]

def hover : Shape := params "Hover" [] [placeFields, workDone]

def completion : Shape :=
  params "Completion"
    [option "context" (record "CompletionContext"
      [need "triggerKind" int32, option "triggerCharacter" text])]
    (placeFields :: reported)

def parameterInformation : Shape :=
  record "ParameterInformation"
    [need "label" (oneOf "ParameterLabel" [text, pair word32]), option "documentation" documentation]

def signatureInformation : Shape :=
  record "SignatureInformation"
    [need "label" text, option "documentation" documentation,
      option "parameters" (list parameterInformation), option "activeParameter" word32]

def signatureHelp : Shape :=
  params "SignatureHelp"
    [option "context" (record "SignatureHelpContext"
      [need "triggerKind" int32, option "triggerCharacter" text, need "isRetrigger" flag,
        option "activeSignatureHelp" (record "SignatureHelp"
          [need "signatures" (list signatureInformation), option "activeSignature" word32,
            option "activeParameter" word32])])]
    [placeFields, workDone]

/-- Parameters that name a document and nothing else. -/
def ofDocument (name : String) : Shape := params name [textDocument] reported

def documentLink : Shape :=
  record "DocumentLink"
    [need "range" range, option "target" uri, option "tooltip" text, option "data" any]

def codeLens : Shape :=
  record "CodeLens" [need "range" range, option "command" command, option "data" any]

def inlayHintLabelPart : Shape :=
  record "InlayHintLabelPart"
    [need "value" text, option "tooltip" (oneOf "InlayHintLabelPartTooltip" [text, markup]),
      option "location" location, option "command" command]

def inlayHint : Shape :=
  record "InlayHint"
    [need "position" position,
      need "label" (oneOf "InlayHintLabel" [text, list inlayHintLabelPart]), option "kind" int32,
      option "textEdits" (list textEdit),
      option "tooltip" (oneOf "InlayHintTooltip" [text, markup]), option "paddingLeft" flag,
      option "paddingRight" flag, option "data" any]

def insertReplaceEdit : Shape :=
  record "InsertReplaceEdit" [need "newText" text, need "insert" range, need "replace" range]

def completionItem : Shape :=
  record "CompletionItem"
    [need "label" text,
      option "labelDetails" (record "CompletionItemLabelDetails"
        [option "detail" text, option "description" text]),
      option "kind" int32, option "detail" text, option "documentation" documentation,
      option "deprecated" flag, option "preselect" flag, option "sortText" text,
      option "filterText" text, option "insertText" text, option "insertTextFormat" int32,
      option "insertTextMode" int32,
      option "textEdit" (oneOf "CompletionTextEdit" [textEdit, insertReplaceEdit]),
      option "additionalTextEdits" (list textEdit), option "command" command,
      option "commitCharacters" texts, option "data" any, option "tags" (list int32)]

def codeActions : Shape :=
  params "CodeAction"
    [textDocument, need "range" range,
      need "context" (record "CodeActionContext"
        [need "diagnostics" (list diagnostic), option "only" texts, option "triggerKind" int32])]
    reported

def codeAction : Shape :=
  record "CodeAction"
    [need "title" text, option "kind" text, option "diagnostics" (list diagnostic),
      option "edit" workspaceEdit, option "command" command, option "isPreferred" flag,
      option "disabled" (record "CodeActionDisabled" [need "reason" text]), option "data" any]

def color : Shape :=
  record "Color" [need "red" float, need "green" float, need "blue" float, need "alpha" float]

def formattingOptions : Shape :=
  composite "FormattingOptions"
    [need "tabSize" word32, need "insertSpaces" flag, option "trimTrailingWhitespace" flag,
      option "insertFinalNewline" flag, option "trimFinalNewlines" flag]
    [] (oneOf "FormattingProperty" [flag, int32, text])

def options : Field := need "options" formattingOptions

/-- A symbol in a tree of calls or of types, with the shape of its tags. -/
def hierarchyItem (name : String) (tags : Shape) : Shape :=
  record name
    [need "name" text, need "kind" int32, option "tags" tags, option "detail" text,
      need "uri" uri, need "range" range, need "selectionRange" range, option "data" any]

def calls (name : String) : Shape :=
  params name [need "item" (hierarchyItem "CallHierarchyItem" (list int32))]
    reported

def types (name : String) : Shape :=
  params name [need "item" (hierarchyItem "TypeHierarchyItem" int32)] reported

def workspaceSymbol : Shape :=
  record "WorkspaceSymbol"
    [need "name" text, need "kind" int32, option "tags" (list int32), option "containerName" text,
      need "location" (oneOf "OneOf" [location, record "WorkspaceLocation" [need "uri" uri]]),
      option "data" any]

/-- Parameters that name files. -/
def files (name : String) (file : Shape) : Shape := record name [need "files" (list file)]

/-- The methods about a document that are known but not answered, with the shapes of their
parameters. -/
def unsupportedOfDocument : List (String × Shape) :=
  [("declaration", definition), ("typeDefinition", definition), ("implementation", definition),
    ("hover", hover), ("completion", completion), ("signatureHelp", signatureHelp),
    ("documentHighlight", params "DocumentHighlight" [] (placeFields :: reported)),
    ("linkedEditingRange", params "LinkedEditingRange" [] [placeFields, workDone]),
    ("moniker", params "Moniker" [] (placeFields :: reported)),
    ("prepareCallHierarchy", params "CallHierarchyPrepare" [] [placeFields, workDone]),
    ("prepareTypeHierarchy", params "TypeHierarchyPrepare" [] [placeFields, workDone]),
    ("documentSymbol", ofDocument "DocumentSymbol"), ("documentLink", ofDocument "DocumentLink"),
    ("codeLens", ofDocument "CodeLens"), ("foldingRange", ofDocument "FoldingRange"),
    ("selectionRange",
      params "SelectionRange" [textDocument, need "positions" (list position)] reported),
    ("semanticTokens/full", ofDocument "SemanticTokens"),
    ("semanticTokens/full/delta",
      params "SemanticTokensDelta" [textDocument, need "previousResultId" text] reported),
    ("semanticTokens/range",
      params "SemanticTokensRange" [textDocument, need "range" range] reported),
    ("inlineValue",
      params "InlineValue"
        [textDocument, need "range" range,
          need "context" (record "InlineValueContext"
            [need "frameId" int32, need "stoppedLocation" range])] [workDone]),
    ("inlayHint", params "InlayHint" [textDocument, need "range" range] [workDone]),
    ("diagnostic",
      params "DocumentDiagnostic"
        [textDocument, option "identifier" text, option "previousResultId" text] reported),
    ("codeAction", codeActions), ("documentColor", ofDocument "DocumentColor"),
    ("colorPresentation",
      params "ColorPresentation" [textDocument, need "color" color, need "range" range] reported),
    ("formatting", params "DocumentFormatting" [textDocument, options] [workDone]),
    ("rangeFormatting",
      params "DocumentRangeFormatting" [textDocument, need "range" range, options] [workDone]),
    ("onTypeFormatting",
      params "DocumentOnTypeFormatting" [need "ch" text, options] [placeFields]),
    ("willSaveWaitUntil",
      record "WillSaveTextDocumentParams" [textDocument, need "reason" int32])]

/-- All methods that are known but not answered. -/
def unsupported : List (String × Shape) :=
  unsupportedOfDocument.map (fun (name, shape) => ("textDocument/" ++ name, shape)) ++
    [("callHierarchy/incomingCalls", calls "CallHierarchyIncomingCalls"),
      ("callHierarchy/outgoingCalls", calls "CallHierarchyOutgoingCalls"),
      ("typeHierarchy/supertypes", types "TypeHierarchySupertypes"),
      ("typeHierarchy/subtypes", types "TypeHierarchySubtypes"),
      ("documentLink/resolve", documentLink), ("codeLens/resolve", codeLens),
      ("inlayHint/resolve", inlayHint), ("completionItem/resolve", completionItem),
      ("codeAction/resolve", codeAction), ("workspaceSymbol/resolve", workspaceSymbol),
      ("workspace/diagnostic",
        params "WorkspaceDiagnostic"
          [option "identifier" text,
            need "previousResultIds"
              (list (record "PreviousResultId" [need "uri" uri, need "value" text]))] reported),
      ("workspace/symbol",
        params "WorkspaceSymbol" [need "query" text] [partialResult, workDone]),
      ("workspace/willCreateFiles",
        files "CreateFilesParams" (record "FileCreate" [need "uri" text])),
      ("workspace/willRenameFiles",
        files "RenameFilesParams" (record "FileRename" [need "oldUri" text, need "newUri" text])),
      ("workspace/willDeleteFiles",
        files "DeleteFilesParams" (record "FileDelete" [need "uri" text])),
      ("workspace/executeCommand",
        params "ExecuteCommand"
          [need "command" text, .mk "arguments" .defaulted (list any)] [workDone])]

end StoryScript.Schema
