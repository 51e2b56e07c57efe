import Thicket.Base.Runs
import Thicket.Base.Program
import Thicket.Base.Loop
import Thicket.Base.Scan
import Thicket.Base.While
import Thicket.Base.Tally
import Thicket.Base.Reads
import Thicket.Base.Stack
import Thicket.Base.Regex
import Thicket.Base.LastEntry
import Thicket.Keypad.InputLayer
import Thicket.Keypad.GhostGuard
import Thicket.Keypad.OneShot
import Thicket.Keypad.Tca8418
import Thicket.Keypad.KeyFifo
import Thicket.Keypad.PollBound
import Thicket.Keypad.Configure
import Thicket.Vault.Password
import Thicket.Vault.Bringup
import Thicket.Vault.AttemptLimit
import Thicket.Vault.UninterruptedBoot
import Thicket.Vault.Reopening
import Thicket.Vault.Erasure
import Thicket.AutoReply.Device
import Thicket.AutoReply.Network
import Thicket.AutoReply.OnAir
import Thicket.AutoReply.DiagBody
import Thicket.Lcd.Font
import Thicket.Lcd.SharpLcd
import Thicket.Lcd.VirtualPanel
import Thicket.Lcd.Mirror
import Thicket.Lcd.Rectangles
import Thicket.Lcd.Display
import Thicket.Lcd.TextInk
import Thicket.Lcd.Scaled
import Thicket.Page.Span
import Thicket.Page.Renderer
import Thicket.Page.Emit
import Thicket.Page.Callbacks
import Thicket.Page.Table
import Thicket.Page.Pen
import Thicket.Page.Height
import Thicket.Page.Window
import Thicket.Page.Returns
import Thicket.Page.Slices
import Thicket.Page.Termination
import Thicket.Page.CellLines
import Thicket.Page.Fitting
import Thicket.Page.Collect
import Thicket.Page.TableLoss
import Thicket.Page.RowSplit
import Thicket.Page.Ink
import Thicket.Page.Margins
import Thicket.Page.Utf8Walk
import Thicket.Page.Ladder
import Thicket.Page.Frame
import Thicket.Page.Dress
import Thicket.Page.Paired
import Thicket.Page.Lockstep
import Thicket.Page.Twins
import Thicket.Page.LineStyle
import Thicket.Page.LinkBoxes
import Thicket.Page.History
import Thicket.Page.BlankLines
import Thicket.Page.Placed
import Thicket.Page.RowSlices
import Thicket.Page.Align
import Thicket.Page.Prose
import Thicket.Page.LiteralRow
import Thicket.Page.SliceCover
import Thicket.Page.Holes
import Thicket.Page.Flat
import Thicket.Page.Report
import Thicket.Page.Reads
import Thicket.Page.ReadBounds
import Thicket.Page.ReadsSuffice
import Thicket.Page.Divider
import Thicket.Page.TableBuffer
import Thicket.Page.Compose
import Thicket.Desktop.Browser
import Thicket.Desktop.LiveFetch
import Thicket.Desktop.Navigation
import Thicket.Scripts.Str
import Thicket.Scripts.Approtect
import Thicket.Scripts.CommentPasses
import Thicket.Scripts.CComments
import Thicket.Scripts.DebugPort
import Thicket.Scripts.CheckPins
import Thicket.Scripts.PinGate
import Thicket.Base.Reassembly
import Thicket.Radio.LoRaInterface
import Thicket.Radio.Link
import Thicket.Store.EncryptedStore
import Thicket.Store.SelfTest
import Thicket.Base.SerialWire
import Thicket.Base.Pacer
import Thicket.Lcd.SoftSpi
import Thicket.Lcd.Painter
import Thicket.Lcd.FirstLight
import Thicket.Base.BinarySearch
import Thicket.Scripts.Bdf
import Thicket.Lcd.FontTables
import Thicket.Lcd.Screenshot
import Thicket.Vault.PlainIdentity
import Thicket.Desktop.Script
import Thicket.Desktop.Replay
import Thicket.Base.Substitute
import Thicket.Scripts.PatchDeps
import Thicket.Scripts.PatchOnce
