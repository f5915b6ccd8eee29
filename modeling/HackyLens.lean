import HackyLens.App.Theorems.Agreement
import HackyLens.App.Theorems.Switch
import HackyLens.App.Theorems.Drawing
import HackyLens.App.Theorems.Wakeup
import HackyLens.App.Theorems.Law
import HackyLens.App.Theorems.Lifecycle
import HackyLens.App.Theorems.Ending
import HackyLens.App.Theorems.Instance
import HackyLens.App.Theorems.Actions
import HackyLens.Lib.Returns
import HackyLens.App.Theorems.Inside
import HackyLens.App.Callback
import HackyLens.Storage.Theorems.Flash
import HackyLens.Storage.Theorems.Settings
import HackyLens.Storage.Theorems.Persistence
import HackyLens.Lib.Memory
import HackyLens.Storage.Flash
import HackyLens.Storage.Settings
import HackyLens.Storage.SettingsCodec
import HackyLens.Storage.Theorems.SettingsCodec
import HackyLens.Storage.Theorems.Publish
import HackyLens.Storage.Theorems.Cleanup
import HackyLens.Storage.Theorems.Startup
import HackyLens.Storage.Theorems.Invariant
import HackyLens.Storage.Theorems.Reading
import HackyLens.Storage.Theorems.Fs
import HackyLens.Storage.Fs
import HackyLens.Storage.Theorems.Handles
import HackyLens.Storage.Theorems.Frame
import HackyLens.Lib.Run
import HackyLens.Storage.Userfs
import HackyLens.Lib.Wp
import HackyLens.Hmpy.Theorems.RoundTrip
import HackyLens.Hmpy.Theorems.Stream
import HackyLens.Hmpy.Host
import HackyLens.Hmpy.Theorems.Agreement
import HackyLens.Hmpy.Client
import HackyLens.Hmpy.Theorems.Client
import HackyLens.Hmpy.Theorems.Session
import HackyLens.Photo.Encode
import HackyLens.Photo.Decode
import HackyLens.Photo.Theorems.Decoding
import HackyLens.Photo.Theorems.View
import HackyLens.Lib.Preserves
import HackyLens.Link.Hal
import HackyLens.Link.Adapter
import HackyLens.Link.Theorems.Hal
import HackyLens.Link.Ledger
import HackyLens.Link.Theorems.Tokens
import HackyLens.Display.Render
import HackyLens.Display.Panel
import HackyLens.Display.Adapter
import HackyLens.Display.Theorems.Workspace
import HackyLens.Display.Theorems.Calm
import HackyLens.Display.Frame
import HackyLens.Display.Theorems.Staging
import HackyLens.Display.Theorems.Transfer
import HackyLens.Display.Theorems.Drawing
import HackyLens.Display.Theorems.Present
import HackyLens.Script.Drawing
import HackyLens.Script.Theorems.Drawing
import HackyLens.Script.Theorems.Requests
import HackyLens.Script.Theorems.Transactions
import HackyLens.Lib.Nor
import HackyLens.Flash.Driver
import HackyLens.Flash.Theorems.Boot
import HackyLens.Flash.Theorems.Internal
import HackyLens.Camera.Stream
import HackyLens.Camera.Theorems.Stream
import HackyLens.Camera.Theorems.Leases
import HackyLens.Photo.Theorems.PngData
import HackyLens.Photo.Gif
import HackyLens.Photo.Theorems.Gif
import HackyLens.Photo.Theorems.Gif
import HackyLens.Photo.Theorems.GifLzw
import HackyLens.Script.Theorems.Output
import HackyLens.Script.Theorems.Preview
import HackyLens.Script.Theorems.Screen
import HackyLens.Display.Theorems.Rooted
import HackyLens.Display.Theorems.Batch
import HackyLens.Display.Theorems.Paint
import HackyLens.Display.Theorems.Damage
import HackyLens.Display.Theorems.Clipping
import HackyLens.Lib.Drive
import HackyLens.Link.I2c
import HackyLens.Link.Theorems.Fifo
import HackyLens.Link.Theorems.Transfer
import HackyLens.Storage.FatTable
import HackyLens.Storage.Theorems.FatTable
import HackyLens.Storage.Theorems.FatAlloc
import HackyLens.Storage.FatDirectory
import HackyLens.Lib.Chain
import HackyLens.Storage.Theorems.FatDirectory
import HackyLens.Core.Text
import HackyLens.Storage.FileScan
import HackyLens.Storage.Theorems.FileScan
import HackyLens.Storage.Theorems.Listing
import HackyLens.Storage.Theorems.FatDelete
import HackyLens.Storage.Theorems.FileBrowser
import HackyLens.Storage.SavedFile
import HackyLens.Storage.Theorems.SavedNames
import HackyLens.Storage.Theorems.Saving
import HackyLens.Storage.Theorems.SavedEntry
import HackyLens.Storage.Theorems.SavedFile
import HackyLens.Link.Protocol
import HackyLens.Link.Theorems.Protocol
import HackyLens.Input.State
import HackyLens.Input.Theorems.Cursor
import HackyLens.Core.Viewport
import HackyLens.Core.Theorems.Viewport
import HackyLens.Camera.AiTransform
import HackyLens.Camera.Theorems.AiTransform
import HackyLens.Camera.Theorems.View
import HackyLens.Camera.Theorems.Boxes
import HackyLens.Camera.Theorems.Resume
import HackyLens.Link.Uart
import HackyLens.Link.Theorems.DebugController
import HackyLens.Link.Theorems.Uart
import HackyLens.App.Terminal
import HackyLens.Storage.Browser
import HackyLens.Storage.Theorems.Browser
import HackyLens.App.Theorems.Terminal
import HackyLens.Pong.Theorems.Tick
import HackyLens.Executor.Theorems.Mailbox
import HackyLens.FaceDetect.Theorems.Detector
import HackyLens.Lib.Greedy
import HackyLens.ObjectDetect.Theorems.Results
import HackyLens.Power.Bus
import HackyLens.Power.Theorems.Bus
import HackyLens.Power.Theorems.Clear
import HackyLens.Lib.Layers
import HackyLens.Photo.Viewer
import HackyLens.Photo.Theorems.Viewer
import HackyLens.Photo.Inflate
import HackyLens.Photo.PngImage
import HackyLens.Photo.Theorems.PngImage
import HackyLens.Photo.Theorems.Formats
import HackyLens.Photo.Theorems.GifPlay
import HackyLens.Lib.Canonical
import HackyLens.Photo.Theorems.Deflate
import HackyLens.Hmpy.Theorems.Paths
