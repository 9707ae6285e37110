/-! Shared tuning constants of the daemon. -/

namespace Uclip

def maxHistory : Nat := 1000

/-- Bytes kept per clipboard payload; reads take one byte more. -/
def maxContentBytes : Nat := 1024 * 1024

def preferredTextMimes : List String :=
  ["text/plain;charset=utf-8", "text/plain", "text/markdown", "text/html", "text/uri-list",
    "TEXT", "STRING", "UTF8_STRING"]

def supportedBinaryMimes : List String := ["image/png", "image/jpeg", "image/webp", "image/gif"]

def maxMimesPerSelection : Nat := 4

def textAliases : List String :=
  ["text/plain", "text/plain;charset=utf-8", "TEXT", "STRING", "UTF8_STRING"]

/-- Milliseconds after a restore during which its echo is still suppressed. -/
def echoSuppressMillis : Nat := 5 * 1000

def previewChars : Nat := 200

def maxListLimit : Nat := 100

/-- Bytes of one request line, its newline included. -/
def maxLineBytes : Nat := 64 * 1024

def restoreQueueCapacity : Nat := 32

def broadcastCapacity : Nat := 64

end Uclip
