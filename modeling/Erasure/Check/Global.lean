/-!
Names that exist without a declaration in the file. A name that is none of them and is not declared
is an error.
-/

namespace Erasure.Global

/-- Values of the language itself. -/
def builtins : List String :=
  ["undefined", "NaN", "Infinity", "globalThis", "eval", "isNaN", "isFinite", "parseInt",
   "parseFloat", "decodeURI", "decodeURIComponent", "encodeURI", "encodeURIComponent", "escape",
   "unescape", "Object", "Function", "Array", "String", "Number", "Boolean", "Symbol", "BigInt",
   "Math", "JSON", "Date", "RegExp", "Error", "EvalError", "RangeError", "ReferenceError",
   "SyntaxError", "TypeError", "URIError", "AggregateError", "Promise", "Map", "Set", "WeakMap",
   "WeakSet", "WeakRef", "FinalizationRegistry", "Proxy", "Reflect", "ArrayBuffer",
   "SharedArrayBuffer", "DataView", "Int8Array", "Uint8Array", "Uint8ClampedArray",
   "Int16Array", "Uint16Array", "Int32Array", "Uint32Array", "Float32Array", "Float64Array",
   "BigInt64Array", "BigUint64Array", "Intl", "Atomics", "Iterator"]

/-- Values of browsers and script hosts. -/
def hostNames : List String :=
  ["window", "self", "document", "console", "name", "length", "status", "event", "close",
   "closed", "open", "opener", "print", "parent", "top", "frames", "frameElement", "origin",
   "screen", "external", "toolbar", "menubar", "scrollbars", "statusbar", "personalbar",
   "locationbar", "innerWidth", "innerHeight", "outerWidth", "outerHeight", "scrollX",
   "scrollY", "pageXOffset", "pageYOffset", "devicePixelRatio", "focus", "blur", "stop",
   "moveBy", "moveTo", "resizeBy", "resizeTo", "scroll", "scrollBy", "scrollTo", "postMessage",
   "dispatchEvent", "onload", "onerror", "onclick", "onmessage", "HTMLElement",
   "HTMLDivElement", "HTMLSpanElement", "HTMLInputElement", "HTMLButtonElement",
   "HTMLAnchorElement", "HTMLImageElement", "HTMLCanvasElement", "HTMLFormElement",
   "HTMLSelectElement", "HTMLTextAreaElement", "HTMLTableElement", "HTMLMediaElement",
   "HTMLVideoElement", "HTMLAudioElement", "Image", "Option", "Audio", "Element", "Node",
   "Document", "Event", "EventTarget", "NodeList", "HTMLCollection", "DOMTokenList", "Window",
   "DOMParser", "Range", "Selection", "Text", "Comment", "DocumentFragment", "XMLHttpRequest",
   "fetch", "Request", "Response", "Headers", "URL", "URLSearchParams", "setTimeout",
   "clearTimeout", "setInterval", "clearInterval", "requestAnimationFrame",
   "cancelAnimationFrame", "alert", "confirm", "prompt", "localStorage", "sessionStorage",
   "Storage", "indexedDB", "caches", "navigator", "Navigator", "location", "Location",
   "history", "History", "MouseEvent", "KeyboardEvent", "TouchEvent", "FocusEvent",
   "CustomEvent", "MessageEvent", "ErrorEvent", "addEventListener", "removeEventListener",
   "CanvasRenderingContext2D", "WebGLRenderingContext", "MediaStream", "MediaRecorder",
   "Worker", "ServiceWorker", "SharedWorker", "MutationObserver", "IntersectionObserver",
   "ResizeObserver", "Performance", "performance", "Blob", "File", "FileReader", "FormData",
   "WebSocket", "ClipboardEvent", "DragEvent", "getComputedStyle", "matchMedia", "DOMException",
   "AbortController", "AbortSignal", "TextEncoder", "TextDecoder", "ReadableStream",
   "WritableStream", "TransformStream", "crypto", "Crypto", "SubtleCrypto", "queueMicrotask",
   "structuredClone", "atob", "btoa", "importScripts", "WebAssembly", "ActiveXObject",
   "WScript", "WSH", "Enumerator", "VBArray"]

/-- Values of server runtimes and test runners. -/
def runtimeNames : List String :=
  ["require", "exports", "module", "process", "Buffer", "__filename", "__dirname", "global",
   "describe", "suite", "it", "test"]

def isBuiltin (name : String) : Bool := builtins.contains name

def isHostName (name : String) : Bool := hostNames.contains name

def isRuntimeName (name : String) : Bool := runtimeNames.contains name

def isKnown (name : String) : Bool := isBuiltin name || isHostName name || isRuntimeName name

end Erasure.Global
