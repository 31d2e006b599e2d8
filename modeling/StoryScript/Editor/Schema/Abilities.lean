import StoryScript.Editor.Schema.Document

/-!
The shape of what an editor says it can do.
-/

namespace StoryScript.Schema

open StoryScript.Shape StoryScript.Field

/-- The shape of some abilities. -/
def abilities (name : String) (fields : List Field) : Shape :=
  record (name ++ "ClientCapabilities") fields

/-- An ability that can be switched on later. -/
def dynamic : Field := option "dynamicRegistration" flag

def dynamicOnly : Shape := abilities "DynamicRegistration" [dynamic]

/-- Flags that may be left out. -/
def flags (names : List String) : List Field :=
  names.map fun name => option name flag

/-- The numbers that an editor knows of some kind. -/
def valueSet (name : String) : Shape := record name [option "valueSet" (list int32)]

/-- The fields that an editor can ask for later. -/
def resolveSupport (name : String) : Field :=
  option "resolveSupport" (record name [need "properties" texts])

/-- The tags that an editor knows. -/
def tagSupport : Field :=
  .mk "tagSupport" .defaulted (orFlag (record "TagSupport" [need "valueSet" (list int32)]))

def workspaceEditAbility : Shape :=
  abilities "WorkspaceEdit"
    [option "documentChanges" flag,
      option "resourceOperations" (list (choice ["create", "rename", "delete"])),
      option "failureHandling"
        (choice ["abort", "transactional", "textOnlyTransactional", "undo"]),
      option "normalizesLineEndings" flag,
      option "changeAnnotationSupport"
        (abilities "ChangeAnnotationWorkspaceEdit" (flags ["groupsOnLabel"]))]

def workspaceSymbolAbility : Shape :=
  abilities "WorkspaceSymbol"
    [dynamic, option "symbolKind" (valueSet "SymbolKindCapability"), tagSupport,
      resolveSupport "WorkspaceSymbolResolveSupportCapability"]

def refreshSupport (name : String) : Shape := abilities name (flags ["refreshSupport"])

def workspaceAbilities : Shape :=
  abilities "Workspace"
    [option "applyEdit" flag, option "workspaceEdit" workspaceEditAbility,
      option "didChangeConfiguration" dynamicOnly,
      option "didChangeWatchedFiles"
        (abilities "DidChangeWatchedFiles"
          (flags ["dynamicRegistration", "relativePatternSupport"])),
      option "symbol" workspaceSymbolAbility, option "executeCommand" dynamicOnly,
      option "workspaceFolders" flag, option "configuration" flag,
      option "semanticTokens" (refreshSupport "SemanticTokensWorkspace"),
      option "codeLens" (refreshSupport "CodeLensWorkspace"),
      option "fileOperations"
        (abilities "WorkspaceFileOperations"
          (flags ["dynamicRegistration", "didCreate", "willCreate", "didRename", "willRename",
            "didDelete", "willDelete"])),
      option "inlineValue" (refreshSupport "InlineValueWorkspace"),
      option "inlayHint" (refreshSupport "InlayHintWorkspace"),
      option "diagnostic" (refreshSupport "DiagnosticWorkspace")]

def completionItemAbility : Shape :=
  record "CompletionItemCapability"
    [option "snippetSupport" flag, option "commitCharactersSupport" flag,
      option "documentationFormat" (list markupKind), option "deprecatedSupport" flag,
      option "preselectSupport" flag, tagSupport, option "insertReplaceSupport" flag,
      resolveSupport "CompletionItemCapabilityResolveSupport",
      option "insertTextModeSupport"
        (record "InsertTextModeSupport" [need "valueSet" (list int32)]),
      option "labelDetailsSupport" flag]

def completionAbility : Shape :=
  abilities "Completion"
    [dynamic, option "completionItem" completionItemAbility,
      option "completionItemKind" (valueSet "CompletionItemKindCapability"),
      option "contextSupport" flag, option "insertTextMode" int32,
      option "completionList" (record "CompletionListCapability" [option "itemDefaults" texts])]

def signatureHelpAbility : Shape :=
  abilities "SignatureHelp"
    [dynamic,
      option "signatureInformation" (record "SignatureInformationSettings"
        [option "documentationFormat" (list markupKind),
          option "parameterInformation"
            (record "ParameterInformationSettings" (flags ["labelOffsetSupport"])),
          option "activeParameterSupport" flag]),
      option "contextSupport" flag]

def gotoAbility : Shape :=
  record "GotoCapability" (flags ["dynamicRegistration", "linkSupport"])

def codeActionAbility : Shape :=
  abilities "CodeAction"
    [dynamic,
      option "codeActionLiteralSupport" (record "CodeActionLiteralSupport"
        [need "codeActionKind" (record "CodeActionKindLiteralSupport" [need "valueSet" texts])]),
      option "isPreferredSupport" flag, option "disabledSupport" flag, option "dataSupport" flag,
      resolveSupport "CodeActionCapabilityResolveSupport", option "honorsChangeAnnotations" flag]

def foldingRangeAbility : Shape :=
  abilities "FoldingRange"
    [dynamic, option "rangeLimit" word32, option "lineFoldingOnly" flag,
      option "foldingRangeKind" (record "FoldingRangeKindCapability"
        [option "valueSet" (list (choice ["comment", "imports", "region"]))]),
      option "foldingRange" (record "FoldingRangeCapability" (flags ["collapsedText"]))]

def semanticTokensAbility : Shape :=
  abilities "SemanticTokens"
    [dynamic,
      need "requests" (record "SemanticTokensClientCapabilitiesRequests"
        [option "range" flag,
          option "full" (oneOf "SemanticTokensFullOptions"
            [flag, record "SemanticTokensFullOptions" (flags ["delta"])])]),
      need "tokenTypes" texts, need "tokenModifiers" texts, need "formats" texts,
      option "overlappingTokenSupport" flag, option "multilineTokenSupport" flag,
      option "serverCancelSupport" flag, option "augmentsSyntaxTokens" flag]

def documentAbilities : Shape :=
  abilities "TextDocument"
    [option "synchronization" (abilities "TextDocumentSync"
        (flags ["dynamicRegistration", "willSave", "willSaveWaitUntil", "didSave"])),
      option "completion" completionAbility,
      option "hover" (abilities "Hover"
        [dynamic, option "contentFormat" (list markupKind)]),
      option "signatureHelp" signatureHelpAbility, option "references" dynamicOnly,
      option "documentHighlight" dynamicOnly,
      option "documentSymbol" (abilities "DocumentSymbol"
        [dynamic, option "symbolKind" (valueSet "SymbolKindCapability"),
          option "hierarchicalDocumentSymbolSupport" flag, tagSupport]),
      option "formatting" dynamicOnly, option "rangeFormatting" dynamicOnly,
      option "onTypeFormatting" dynamicOnly, option "declaration" gotoAbility,
      option "definition" gotoAbility, option "typeDefinition" gotoAbility,
      option "implementation" gotoAbility, option "codeAction" codeActionAbility,
      option "codeLens" dynamicOnly,
      option "documentLink" (abilities "DocumentLink"
        (flags ["dynamicRegistration", "tooltipSupport"])),
      option "colorProvider" dynamicOnly,
      option "rename" (abilities "Rename"
        [dynamic, option "prepareSupport" flag, option "prepareSupportDefaultBehavior" int32,
          option "honorsChangeAnnotations" flag]),
      option "publishDiagnostics" (abilities "PublishDiagnostics"
        [option "relatedInformation" flag, tagSupport, option "versionSupport" flag,
          option "codeDescriptionSupport" flag, option "dataSupport" flag]),
      option "foldingRange" foldingRangeAbility,
      option "selectionRange" (abilities "SelectionRange" [dynamic]),
      option "linkedEditingRange" dynamicOnly, option "callHierarchy" dynamicOnly,
      option "semanticTokens" semanticTokensAbility, option "moniker" dynamicOnly,
      option "typeHierarchy" dynamicOnly, option "inlineValue" dynamicOnly,
      option "inlayHint" (abilities "InlayHint"
        [dynamic, resolveSupport "InlayHintResolveClientCapabilities"]),
      option "diagnostic" (abilities "Diagnostic"
        (flags ["dynamicRegistration", "relatedDocumentSupport"]))]

def windowAbilities : Shape :=
  abilities "Window"
    [option "workDoneProgress" flag,
      option "showMessage" (abilities "ShowMessageRequest"
        [option "messageActionItem" (record "MessageActionItemCapabilities"
          (flags ["additionalPropertiesSupport"]))]),
      option "showDocument" (abilities "ShowDocument" [need "support" flag])]

def generalAbilities : Shape :=
  abilities "General"
    [option "regularExpressions" (abilities "RegularExpressions"
        [need "engine" text, option "version" text]),
      option "markdown" (abilities "Markdown"
        [need "parser" text, option "version" text, option "allowedTags" texts]),
      option "staleRequestSupport" (abilities "StaleRequestSupport"
        [need "cancel" flag, need "retryOnContentModified" texts]),
      option "positionEncodings" texts]

def editorAbilities : Shape :=
  abilities ""
    [option "workspace" workspaceAbilities, option "textDocument" documentAbilities,
      option "window" windowAbilities, option "general" generalAbilities,
      option "experimental" any]

end StoryScript.Schema
